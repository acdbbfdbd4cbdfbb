/-
  What a message does to the interrupt vectors.

  Only an accepted connect of the device's own id wires a vector: the one that
  its descriptor is for.  The vectors from there on have no handler yet, so that
  the assertions on the way hold:

  * `processMsg_wiring` traces the interrupt vectors and the file descriptor
    handlers back to `attachNotifier`;
  * `processMsg_ready`: a message about no freed array is handled without a
    fault, and leaves the device ready for the next.
-/
import IdtNtb.Slots

namespace IdtNtb

open Runs

variable {x : Vm} {c c₀ c' : Ctx x} {msg : ℤ} {fd : Option Fd} {env : Env} {err : Option MsgError}
  {n : Option Fd} {vector : ℕ}

/-- The handler that an effect registers: for a descriptor, with the entry of a vector. -/
def Effect.handler? : Effect → Option (Option Fd × ℕ)
  | .setFdHandler fd vector => some (fd, vector)
  | _ => none

/-- The handlers registered so far. -/
def Ctx.handlers (c : Ctx x) : List (Option Fd × ℕ) := c.out.filterMap Effect.handler?

theorem Ctx.handlers_emit (c : Ctx x) (e : Effect) :
    (c.emit e).handlers = c.handlers ++ e.handler?.toList := by
  unfold handlers
  rw [Ctx.emit_out, List.filterMap_append]
  cases h : e.handler? <;> simp [h]

theorem msiVector_congr (h : c'.dev.msiVectors = c.dev.msiVectors) (vector : ℕ) :
    msiVector c' vector = msiVector c vector := by
  unfold msiVector
  rw [h]

/-- The interrupt vectors and the handlers are the same. -/
structure SameWiring (c c' : Ctx x) : Prop where
  vectors : c'.dev.msiVectors = c.dev.msiVectors
  handlers : c'.handlers = c.handlers

namespace SameWiring

theorem refl (c : Ctx x) : SameWiring c c := ⟨rfl, rfl⟩

theorem trans {c'' : Ctx x} (h : SameWiring c c') (h' : SameWiring c' c'') : SameWiring c c'' :=
  ⟨h'.vectors.trans h.vectors, h'.handlers.trans h.handlers⟩

theorem emit (c : Ctx x) {e : Effect} (h : e.handler? = none) : SameWiring c (c.emit e) :=
  ⟨rfl, by rw [Ctx.handlers_emit, h, Option.toList_none, List.append_nil]⟩

theorem modDev (c : Ctx x) {f : IVShmemState x → IVShmemState x}
    (h : (f c.dev).msiVectors = c.dev.msiVectors) : SameWiring c (c.modDev f) := ⟨h, rfl⟩

theorem closeFd (c : Ctx x) (fd : Option Fd) : SameWiring c (c.closeFd fd) := by
  cases fd with
  | none => exact .refl c
  | some fd => exact .emit c rfl

theorem closeFds (l : List (Option Fd)) (c : Ctx x) : SameWiring c (l.foldl Ctx.closeFd c) := by
  induction l generalizing c with
  | nil => exact .refl c
  | cons fd l ih => exact (closeFd c fd).trans (ih (c.closeFd fd))

theorem msiVector (h : SameWiring c c') (vector : ℕ) :
    IdtNtb.msiVector c' vector = IdtNtb.msiVector c vector :=
  msiVector_congr h.vectors vector

end SameWiring

theorem closePeerEventfds_wiring {posn : ℕ} (h : closePeerEventfds c posn = .ok c') :
    SameWiring c c' := by
  unfold closePeerEventfds at h
  cases hp : c.dev.peers[posn]? with
  | none => rw [hp] at h; cases h
  | some p =>
    rw [hp] at h
    dsimp only at h
    split_ifs at h
    cases h
    exact (SameWiring.closeFds _ c).trans (.modDev _ rfl)

theorem initVmIds_wiring (h : initVmIds c = .ok c') : SameWiring c c' := by
  unfold initVmIds at h
  dsimp only at h
  split_ifs at h
  · cases h
    refine SameWiring.trans ?_ (.emit _ rfl)
    exact ⟨rfl, rfl⟩
  · cases h
    exact ⟨rfl, rfl⟩

theorem Grown.nbEventfds {c₁ : Ctx x} (hg : Grown c c₁) (posn : ℕ) :
    c₁.dev.nbEventfds posn = c.dev.nbEventfds posn := by
  rw [IVShmemState.nbEventfds_natCast, IVShmemState.nbEventfds_natCast, hg.peer]

/-- The message is an accepted connect of the device's own id. -/
structure ConnectsOwn (d : IVShmemState x) (msg : ℤ) (fd : Option Fd) : Prop where
  fd : fd.isSome
  own : msg = d.vmId
  range : 0 ≤ msg ∧ msg ≤ ivshmemMaxPeers
  room : d.nbEventfds msg < d.vectors

theorem connectsOwn_iff {d : IVShmemState x} {posn : ℕ} {fd : Fd}
    (hposn : (posn : ℤ) ≤ ivshmemMaxPeers) : ConnectsOwn d posn (some fd) ↔
      (posn : ℤ) = d.vmId ∧ (d.peer posn).nbEventfds < d.vectors := by
  have hnb : d.nbEventfds posn = (d.peer posn).nbEventfds := IVShmemState.nbEventfds_natCast d posn
  constructor
  · intro h
    exact ⟨h.own, hnb ▸ h.room⟩
  · rintro ⟨hown, hroom⟩
    exact ⟨rfl, hown, ⟨Int.natCast_nonneg posn, hposn⟩, by rw [hnb]; exact hroom⟩

/-- The notifier is attached for the vector, in a device with the wiring of `c`. -/
def Attaches (c : Ctx x) (n : Option Fd) (vector : ℕ) (env : Env) (c' : Ctx x) : Prop :=
  ∃ c₁ c₂ err, SameWiring c c₁ ∧ c₁.dev.features = c.dev.features ∧
    attachNotifier c₁ n vector env = .ok (c₂, err) ∧ SameWiring c₂ c'

theorem setupInterrupt_wiring (h : setupInterrupt c vector env = .ok (c', err)) :
    ∃ n, c.dev.notifier c.dev.vmId vector = .ok n ∧ Attaches c n vector env c' := by
  obtain ⟨n, hn, h⟩ := bind_ok.1 h
  obtain ⟨⟨c₂, e⟩, h₂, h⟩ := bind_ok.1 h
  refine ⟨n, hn, c, c₂, e, .refl c, rfl, h₂, ?_⟩
  cases e with
  | some e =>
    cases h
    exact .refl _
  | none =>
    dsimp only at h
    split_ifs at h
    · obtain ⟨c₃, h₃, h⟩ := bind_ok.1 h
      cases h
      exact initVmIds_wiring h₃
    · cases h
      exact .refl _

theorem processMsgConnect_wiring {posn : ℕ} {fd : Fd} (hok : c.dev.TableOk)
    (hposn : (posn : ℤ) ≤ ivshmemMaxPeers) (hlt : posn < c.dev.nbPeers)
    (h : processMsgConnect c posn fd env = .ok (c', err)) :
    (ConnectsOwn c.dev posn (some fd) ∧
        Attaches c (some fd) (c.dev.nbEventfds posn) env c') ∨
      (¬ ConnectsOwn c.dev posn (some fd) ∧ SameWiring c c') := by
  unfold processMsgConnect at h
  rw [IVShmemState.getElem?_peer hlt] at h
  dsimp only at h
  rw [IVShmemState.nbEventfds_natCast, connectsOwn_iff hposn]
  split_ifs at h with hfull hall hown
  · cases h
    exact Or.inr ⟨fun ho => ho.2.not_ge hfull, .closeFd c _⟩
  · have hroom : (c.dev.peer posn).nbEventfds < c.dev.vectors := Nat.not_le.1 hfull
    refine Or.inl ⟨⟨hown, hroom⟩, ?_⟩
    obtain ⟨n, hn, c₁, c₂, e, h₁, hfeat, h₂, h₃⟩ := setupInterrupt_wiring h
    -- the notifier is the one just stored
    have hid : (posn : ℤ) = c.dev.vmId := hown
    have hstored : ((c.dev.peer posn).connect fd).eventfds[(c.dev.peer posn).nbEventfds]? =
        some (some fd) := List.getElem?_set_self (by rw [(hok posn).length]; exact hroom)
    have hn' := notifier_set hlt (p := (c.dev.peer posn).connect fd) hall hstored
    rw [hid] at hn'
    obtain rfl := Except.ok.inj (hn.symm.trans hn')
    exact ⟨c₁, c₂, e, SameWiring.trans (.modDev c rfl) h₁, hfeat, h₂, h₃⟩
  · cases h
    exact Or.inr ⟨fun ho => hown ho.1, rfl, rfl⟩

theorem processMsgDisconnect_wiring {posn : ℕ} (h : processMsgDisconnect c posn = .ok (c', err)) :
    SameWiring c c' := by
  unfold processMsgDisconnect at h
  split_ifs at h
  · cases h
    exact .refl c
  · obtain ⟨c₁, h₁, h⟩ := bind_ok.1 h
    cases h
    exact closePeerEventfds_wiring h₁

theorem processMsgShmem_wiring (c : Ctx x) (fd : Option Fd) (env : Env) :
    SameWiring c (processMsgShmem c fd env).1 := by
  unfold processMsgShmem
  split_ifs
  · exact .closeFd c fd
  · exact .closeFd c fd
  · exact .refl c
  · exact ⟨rfl, rfl⟩

/-- An own connect is accepted in a table that has grown if it was accepted before. -/
theorem Grown.connectsOwn {c₁ : Ctx x} (hg : Grown c c₁) {posn : ℕ} :
    ConnectsOwn c₁.dev posn fd ↔ ConnectsOwn c.dev posn fd := by
  have hnb := hg.nbEventfds posn
  have hid := hg.framed.vmId
  have hvec := hg.framed.vectors
  refine ⟨fun ⟨h1, h2, h3, h4⟩ => ⟨h1, ?_, h3, ?_⟩, fun ⟨h1, h2, h3, h4⟩ => ⟨h1, ?_, h3, ?_⟩⟩
  · rw [← hid]
    exact h2
  · rw [← hnb, ← hvec]
    exact h4
  · rw [hid]
    exact h2
  · rw [hnb, hvec]
    exact h4

/-- **A message wires the next vector** if it is an accepted connect of the own id, and nothing
    otherwise. -/
theorem processMsg_wiring (hok : c.dev.TableOk) (h : processMsg c msg fd env = .ok (c', err)) :
    (ConnectsOwn c.dev msg fd ∧ Attaches c fd (c.dev.nbEventfds msg) env c') ∨
      (¬ ConnectsOwn c.dev msg fd ∧ SameWiring c c') := by
  rcases msg_cases msg with hbad | rfl | ⟨posn, rfl, hposn⟩
  · rw [processMsg_invalid c fd env hbad] at h
    cases h
    refine Or.inr ⟨fun ho => ?_, .closeFd c fd⟩
    have hrange := ho.range
    omega
  · have hsame := processMsgShmem_wiring c fd env
    rw [Except.ok.inj ((processMsg_shmem c fd env).symm.trans h)] at hsame
    refine Or.inr ⟨fun ho => ?_, hsame⟩
    have hrange := ho.range
    omega
  · obtain ⟨c₁, hg, hlt, heq⟩ := processMsg_posn c fd env hposn
    rw [heq] at h
    have hsame : SameWiring c c₁ := by
      obtain ⟨ps, rfl⟩ := hg.table
      exact ⟨rfl, rfl⟩
    have hok₁ : c₁.dev.TableOk := by
      intro i
      rw [hg.peer, hg.framed.vectors]
      exact hok i
    cases fd with
    | none =>
      exact Or.inr ⟨fun ho => absurd ho.fd (by simp), hsame.trans (processMsgDisconnect_wiring h)⟩
    | some fd =>
      rcases processMsgConnect_wiring hok₁ hposn hlt h with
        ⟨ho, c₂, c₃, e, h₂, hfeat, h₃, h₄⟩ | ⟨ho, hs⟩
      · refine Or.inl ⟨hg.connectsOwn.1 ho, c₂, c₃, e, hsame.trans h₂, hfeat.trans ?_,
          hg.nbEventfds posn ▸ h₃, h₄⟩
        obtain ⟨ps, rfl⟩ := hg.table
        rfl
      · exact Or.inr ⟨fun h => ho (hg.connectsOwn.2 h), hsame.trans hs⟩

/-! ## The vectors that follow -/

/-- No vector from `k` on has a handler. -/
def Unwired (c : Ctx x) (k : ℕ) : Prop := ∀ v, k ≤ v → ∀ e, msiVector c v = .ok e → e.pdev = false

theorem Unwired.mono {k k' : ℕ} (h : Unwired c k) (hk : k ≤ k') : Unwired c k' :=
  fun v hv => h v (hk.trans hv)

theorem SameWiring.unwired {k : ℕ} (hs : SameWiring c c') (h : Unwired c k) : Unwired c' k := by
  intro v hv e he
  rw [hs.msiVector] at he
  exact h v hv e he

/-- At most the entry of the vector is stored. -/
theorem attachNotifier_stores (h : attachNotifier c n vector env = .ok (c', err)) :
    c'.dev.msiVectors = c.dev.msiVectors ∨
      ∃ e, c'.dev.msiVectors = c.dev.msiVectors.map (·.set vector e) := by
  cases attachNotifier_result h with
  | watched => exact Or.inr ⟨_, rfl⟩
  | @routed e hirq hmsix he hp hroute c₁ hc₁ =>
    refine Or.inr ⟨{ e with virq := env.addMsiRoute, pdev := true }, ?_⟩
    subst hc₁
    split_ifs <;> rfl
  | refused => exact Or.inl rfl
  | delayed => exact Or.inl rfl

theorem msiVector_of_set {e : MSIVector} {v : ℕ} (hne : v ≠ vector)
    (h : c'.dev.msiVectors = c.dev.msiVectors.map (·.set vector e)) :
    msiVector c' v = msiVector c v := by
  unfold msiVector
  rw [h]
  cases c.dev.msiVectors with
  | none => rfl
  | some vs =>
    dsimp only [Option.map_some]
    rw [List.getElem?_set_ne (Ne.symm hne)]

theorem Attaches.unwired (h : Attaches c n vector env c') (hu : Unwired c vector) :
    Unwired c' (vector + 1) := by
  obtain ⟨c₁, c₂, e, h₁, -, h₂, h₃⟩ := h
  have hu₁ := h₁.unwired hu
  refine h₃.unwired ?_
  intro v hv entry hentry
  rcases attachNotifier_stores h₂ with hsame | ⟨e, hset⟩
  · unfold msiVector at hentry
    rw [hsame] at hentry
    exact hu₁ v (by omega) entry hentry
  · rw [msiVector_of_set (by omega) hset] at hentry
    exact hu₁ v (by omega) entry hentry

/-- **The vectors counted for the device itself** go up by one with an accepted connect. -/
theorem nbEventfds_own (h : processMsg c msg fd env = .ok (c', err)) :
    (ConnectsOwn c.dev msg fd →
      c'.dev.nbEventfds c.dev.vmId = c.dev.nbEventfds c.dev.vmId + 1) ∧
    (¬ ConnectsOwn c.dev msg fd → c'.dev.nbEventfds c.dev.vmId = c.dev.nbEventfds c.dev.vmId) := by
  obtain ⟨hpeer, -⟩ := processMsg_spec h
  by_cases hid : 0 ≤ c.dev.vmId
  · obtain ⟨i, hi⟩ := Int.eq_ofNat_of_zero_le hid
    rw [hi, IVShmemState.nbEventfds_natCast, IVShmemState.nbEventfds_natCast, hpeer]
    refine ⟨fun ho => ?_, fun hno => ?_⟩
    · obtain ⟨hfd, hown, ⟨-, hmax⟩, hroom⟩ := ho
      obtain ⟨fd, rfl⟩ := Option.isSome_iff_exists.1 hfd
      rw [hown, hi] at hmax hroom ⊢
      rw [IVShmemState.nbEventfds_natCast] at hroom
      rw [entryAfter_connect hmax, if_neg (Nat.not_le.2 hroom)]
      rfl
    · by_cases hmsg : msg = i ∧ msg ≤ ivshmemMaxPeers
      · obtain ⟨rfl, hmax⟩ := hmsg
        cases fd with
        | none => rw [entryAfter_disconnect hmax, if_pos hi.symm]
        | some fd =>
          rw [entryAfter_connect hmax]
          split_ifs with hfull
          · rfl
          · refine absurd ⟨rfl, hi.symm, ⟨hi ▸ hid, hmax⟩, ?_⟩ hno
            rw [IVShmemState.nbEventfds_natCast]
            omega
      · rw [entryAfter_of_not fun hn => hmsg ⟨hn.1.symm, hn.2⟩]
  · refine ⟨fun ho => absurd (ho.own ▸ ho.range.1) hid, fun _ => ?_⟩
    unfold IVShmemState.nbEventfds
    rw [if_neg hid, if_neg hid]

/-! ## No fault -/

/-- A handler in which no assertion fails. -/
def Asserts {γ : Type} (m : Except Fault γ) : Prop := Ends (· ≠ .assertion) (fun _ => True) m

theorem Asserts.bind {γ δ : Type} {m : Except Fault γ} {f : γ → Except Fault δ} (hm : Asserts m)
    (hf : ∀ a, m = .ok a → Asserts (f a)) : Asserts (m >>= f) := by
  cases m with
  | error e => exact hm
  | ok a => exact hf a rfl

theorem Asserts.ne_assertion {γ : Type} {m : Except Fault γ} (h : Asserts m) :
    m ≠ .error .assertion := Ends.ne_error h fun hne => hne rfl

theorem msiVector_asserts (c : Ctx x) (vector : ℕ) : Asserts (msiVector c vector) := by
  unfold msiVector
  cases c.dev.msiVectors with
  | none => exact nofun
  | some vs =>
    dsimp only
    cases vs[vector]? with
    | none => exact nofun
    | some e => trivial

theorem notifier_asserts (d : IVShmemState x) (posn : ℤ) (vector : ℕ) :
    Asserts (d.notifier posn vector) := by
  unfold IVShmemState.notifier
  by_cases hp : 0 ≤ posn
  · rw [if_pos hp]
    cases d.peers[posn.toNat]? with
    | none => exact nofun
    | some p =>
      dsimp only
      split_ifs
      · cases p.eventfds[vector]? with
        | none => exact nofun
        | some fd => trivial
      · exact nofun
  · rw [if_neg hp]
    exact nofun

/-- The assertions of `watch_vector_notifier` and `ivshmem_add_kvm_msi_virq` hold for a vector
    without a handler. -/
theorem attachNotifier_asserts (hu : Unwired c vector) :
    Asserts (attachNotifier c n vector env) := by
  have hfree : ∀ e, msiVector c vector = .ok e → ¬ e.pdev = true := by
    intro e he
    rw [hu vector le_rfl e he]
    exact Bool.false_ne_true
  unfold attachNotifier
  dsimp only
  by_cases hirq : (!(env.msiViaIrqfd && c.dev.hasFeature ivshmemMsi)) = true
  · rw [if_pos hirq]
    refine Asserts.bind ?_ fun c₁ _ => trivial
    refine Asserts.bind (msiVector_asserts c vector) fun e he => ?_
    rw [if_neg (hfree e he)]
    trivial
  rw [if_neg hirq]
  by_cases hmsix : env.msixEnabled = true
  · rw [if_pos hmsix]
    refine Asserts.bind ?_ fun r _ => ?_
    · refine Asserts.bind (msiVector_asserts c vector) fun e he => ?_
      rw [if_neg (hfree e he)]
      split_ifs <;> trivial
    · obtain ⟨c₁, _ | err⟩ := r <;> trivial
  · rw [if_neg hmsix]
    trivial

theorem setupInterrupt_asserts (hu : Unwired c vector) :
    Asserts (setupInterrupt c vector env) := by
  refine Asserts.bind (notifier_asserts _ _ _) fun n _ => ?_
  refine Asserts.bind (attachNotifier_asserts hu) fun r _ => ?_
  obtain ⟨c₁, _ | err⟩ := r
  · dsimp only
    split_ifs
    · refine Asserts.bind ?_ fun c₂ _ => trivial
      unfold initVmIds
      dsimp only
      split_ifs
      · trivial
      · trivial
      · intro h
        cases h
    · trivial
  · trivial

/-- **No assertion fails in a message** while the vectors that are not counted have no handler. -/
theorem processMsg_asserts (hu : Unwired c (c.dev.nbEventfds c.dev.vmId)) :
    Asserts (processMsg c msg fd env) := by
  rcases msg_cases msg with hbad | rfl | ⟨posn, rfl, hposn⟩
  · rw [processMsg_invalid c fd env hbad]
    trivial
  · rw [processMsg_shmem]
    trivial
  · obtain ⟨c₁, hg, hlt, heq⟩ := processMsg_posn c fd env hposn
    rw [heq]
    cases fd with
    | none =>
      show Asserts (processMsgDisconnect c₁ posn)
      unfold processMsgDisconnect
      split_ifs
      · trivial
      · rcases closePeerEventfds_ends hlt with ⟨-, hbad⟩ | ⟨-, c₂, ps, hclose, -⟩
        · rw [hbad]
          exact nofun
        · rw [hclose]
          trivial
    | some fd =>
      show Asserts (processMsgConnect c₁ posn fd env)
      unfold processMsgConnect
      rw [IVShmemState.getElem?_peer hlt]
      dsimp only
      split_ifs with hfull hall hown
      · trivial
      · refine setupInterrupt_asserts ?_
        have hid : (posn : ℤ) = c.dev.vmId := Eq.trans hown hg.framed.vmId
        rw [← hid, IVShmemState.nbEventfds_natCast, ← hg.peer] at hu
        have hsame : SameWiring c c₁ := by
          obtain ⟨ps, rfl⟩ := hg.table
          exact ⟨rfl, rfl⟩
        exact (hsame.trans (.modDev c₁ rfl)).unwired hu
      · trivial
      · exact nofun

/-- A message leaves the vectors that are not counted without a handler. -/
theorem processMsg_unwired (hok : c.dev.TableOk) (hu : Unwired c (c.dev.nbEventfds c.dev.vmId))
    (h : processMsg c msg fd env = .ok (c', err)) :
    Unwired c' (c'.dev.nbEventfds c'.dev.vmId) := by
  obtain ⟨-, hframe, -⟩ := processMsg_spec h
  obtain ⟨hmore, hsame⟩ := nbEventfds_own h
  rw [hframe.vmId]
  rcases processMsg_wiring hok h with ⟨ho, ha⟩ | ⟨ho, hs⟩
  · rw [hmore ho, ← ho.own]
    refine ha.unwired ?_
    rw [ho.own]
    exact hu
  · rw [hsame ho]
    exact hs.unwired hu

/-- The device can take any message about an array that is there. -/
structure Ready (c : Ctx x) : Prop where
  wireable : Wireable c
  table : c.dev.TableOk
  unwired : Unwired c (c.dev.nbEventfds c.dev.vmId)

/-- **A message about no freed array is handled**, and the device is ready for the next. -/
theorem processMsg_ready (hr : Ready c) (hf : ∀ i : ℕ, msg = i → ¬ Freed c.dev i) :
    ∃ c' err, processMsg c msg fd env = .ok (c', err) ∧ Ready c' := by
  have hends : Safely (fun r => Wireable r.1) (processMsg c msg fd env) :=
    processMsg_ends hr.wireable hr.table hf
  have hasserts : Asserts (processMsg c msg fd env) := processMsg_asserts hr.unwired
  cases h : processMsg c msg fd env with
  | error f =>
    cases f with
    | assertion => exact absurd h hasserts.ne_assertion
    | badPointer => exact absurd h hends.ne_badPointer
  | ok r =>
    obtain ⟨c', err⟩ := r
    rw [h] at hends
    exact ⟨c', err, rfl, hends, processMsg_tableOk h hr.table,
      processMsg_unwired hr.table hr.unwired h⟩

end IdtNtb
