/-
  Interrupts by irqfd.

  In irqfd mode KVM raises the interrupt when the notifier of a vector is
  signalled.  A vector has a route while MSI-X is enabled, and its notifier is
  attached to it while the vector is not masked.  The MSI-X core of QEMU tells
  the device of masking and unmasking (`Notice`); it is not modelled, and neither
  is KVM: what they answer comes with each event.

  * `history` is what KVM was asked for a vector, as far as it was in order: a
    route is added, the notifier attached and detached, the route released;
  * `Tracked`: the entries of `msi_vectors` are what the histories say;
  * one lemma for each function says how it moves an entry (`unmask_tracked` and
    the ones after it).
-/
import IdtNtb.Connects

namespace IdtNtb

open Function (update)
open Runs

variable {x : Vm}

/-! ## What KVM is asked -/

/-- A call that KVM has answered with success, about one vector. -/
inductive KvmCall where
  /-- `kvm_irqchip_add_msi_route` -/
  | addMsiRoute (virq : ℤ)
  /-- `kvm_irqchip_add_irqfd_notifier_gsi` -/
  | addIrqfd (virq : ℤ)
  /-- `kvm_irqchip_remove_irqfd_notifier_gsi` -/
  | removeIrqfd (virq : ℤ)
  /-- `kvm_irqchip_release_virq` -/
  | releaseVirq (virq : ℤ)
deriving DecidableEq

/-- What a vector has in KVM: nothing, a route, or a route with its notifier attached. -/
inductive Route where
  | none
  | added (virq : ℤ)
  | attached (virq : ℤ)
deriving DecidableEq

/-- The calls that are in order: a route is added once before it is released, the notifier is
    attached to the route, and it is detached before the route is released. -/
def Route.next : Route → KvmCall → Option Route
  | .none, .addMsiRoute virq => some (.added virq)
  | .added virq, .addIrqfd virq' => if virq' = virq then some (.attached virq) else Option.none
  | .attached virq, .removeIrqfd virq' => if virq' = virq then some (.added virq) else Option.none
  | .added virq, .releaseVirq virq' => if virq' = virq then some .none else Option.none
  | _, _ => Option.none

/-- What the vector has after the calls, if they were in order. -/
def history (vector : ℕ) (calls : List (ℕ × KvmCall)) : Option Route :=
  (calls.filterMap fun e => if e.1 = vector then some e.2 else none).foldlM Route.next .none

theorem history_snoc (vector v : ℕ) (k : KvmCall) (calls : List (ℕ × KvmCall)) :
    history vector (calls ++ [(v, k)]) =
      if v = vector then (history vector calls).bind (Route.next · k)
      else history vector calls := by
  unfold history
  rw [List.filterMap_append, List.foldlM_append]
  by_cases hv : v = vector
  · rw [if_pos hv]
    simp only [List.filterMap_cons, if_pos hv, List.filterMap_nil, List.foldlM_cons,
      List.foldlM_nil]
    rcases List.foldlM Route.next .none _ with _ | r
    · rfl
    · cases h : Route.next r k <;> simp [h]
  · rw [if_neg hv]
    simp [hv]

/-! ## The device -/

/-- The device in irqfd mode, with what the MSI-X core and KVM keep about it. -/
structure Irqfd (x : Vm) where
  ctx : Ctx x
  /-- `msix_enabled(pdev)` -/
  msixEnabled : Bool
  /-- `pdev->msix_vector_use_notifier` is set. -/
  useNotifier : Bool
  /-- The vectors that the core has unmasked through the notifier, and not masked since. -/
  inUse : ℕ → Bool
  kvm : List (ℕ × KvmCall)

namespace Irqfd

def store (s : Irqfd x) (vector : ℕ) (e : MSIVector) : Irqfd x :=
  { s with ctx := s.ctx.setMsiVector vector e }

def call (s : Irqfd x) (vector : ℕ) (k : KvmCall) : Irqfd x :=
  { s with kvm := s.kvm ++ [(vector, k)] }

def report (s : Irqfd x) (msg : String) : Irqfd x := { s with ctx := s.ctx.emit (.errorReport msg) }

end Irqfd

/-- `-EINVAL` -/
def einval : ℤ := -22

def routeMissing (vector : ℕ) : String :=
  "ivshmem: vector " ++ toString vector ++ " route does not exist"

/-- `update` and `add` are what the two calls of KVM return. -/
def ivshmemVectorUnmask (s : Irqfd x) (vector : ℕ) (update add : ℤ) :
    Except Fault (Irqfd x × ℤ) := do
  let _ ← s.ctx.dev.notifier s.ctx.dev.vmId vector
  let v ← msiVector s.ctx vector
  if !v.pdev then pure (s.report (routeMissing vector), einval)
  else if v.unmasked then .error .assertion
  else if update < 0 then pure (s, update)
  else if add < 0 then pure (s, add)
  else pure ((s.call vector (.addIrqfd v.virq)).store vector { v with unmasked := true }, 0)

def ivshmemVectorMask (s : Irqfd x) (vector : ℕ) (remove : ℤ) : Except Fault (Irqfd x) := do
  let _ ← s.ctx.dev.notifier s.ctx.dev.vmId vector
  let v ← msiVector s.ctx vector
  if !v.pdev then pure (s.report (routeMissing vector))
  else if !v.unmasked then .error .assertion
  else if remove < 0 then pure (s.report "remove_irqfd_notifier_gsi failed")
  else pure ((s.call vector (.removeIrqfd v.virq)).store vector { v with unmasked := false })

/-- `ivshmem_add_kvm_msi_virq`, where KVM answers `ret`. -/
def addKvmMsiVirq (s : Irqfd x) (vector : ℕ) (ret : ℤ) :
    Except Fault (Irqfd x × Option MsgError) := do
  match ← ivshmemAddKvmMsiVirq s.ctx vector { eventfdEnv with addMsiRoute := ret } with
  | (c, some err) => pure ({ s with ctx := c }, some err)
  | (c, none) => pure ({ s with ctx := c }.call vector (.addMsiRoute ret), none)

def ivshmemRemoveKvmMsiVirq (s : Irqfd x) (vector : ℕ) : Except Fault (Irqfd x) := do
  let v ← msiVector s.ctx vector
  if !v.pdev then pure s
  else pure ((s.call vector (.releaseVirq v.virq)).store vector { v with pdev := false })

/-! ### Calls of the core -/

/-- A call of one of the notifiers, with what KVM answers. -/
inductive Notice where
  | unmask (vector : ℕ) (update add : ℤ)
  | mask (vector : ℕ) (remove : ℤ)

/-- The core takes a vector to be in use when it could be unmasked, and until it is masked. -/
def Irqfd.notice (s : Irqfd x) : Notice → Except Fault (Irqfd x)
  | .unmask vector update add => do
    let (s, ret) ← ivshmemVectorUnmask s vector update add
    pure (if ret < 0 then s else { s with inUse := Function.update s.inUse vector true })
  | .mask vector remove => do
    let s ← ivshmemVectorMask s vector remove
    pure { s with inUse := Function.update s.inUse vector false }

/-! ### Enabling and disabling -/

/-- `&s->peers[s->vm_id]` -/
def ownPeer (c : Ctx x) : Except Fault Peer :=
  match c.dev.peers[c.dev.vmId.toNat]? with
  | some p => .ok p
  | none => .error .badPointer

/-- Add routes for `n` vectors, from `i` on: the number of the first one that has none, and whether
    all have one. -/
def addVirqs (routes : ℕ → ℤ) (s : Irqfd x) (i : ℕ) : ℕ → Except Fault (Irqfd x × ℕ × Bool)
  | 0 => .ok (s, i, true)
  | n + 1 => do
    match ← addKvmMsiVirq s i (routes i) with
    | (s, some err) => pure (s.report err.text, i, false)
    | (s, none) => addVirqs routes s (i + 1) n

/-- `undo`: the routes below `i` are removed. -/
def undoVirqs (s : Irqfd x) (i : ℕ) : Except Fault (Irqfd x) :=
  (List.range i).reverse.foldlM ivshmemRemoveKvmMsiVirq s

/-- `notices` are the calls that `msix_set_vector_notifiers` makes, and `ret` is what it returns. -/
def ivshmemEnableIrqfd (s : Irqfd x) (routes : ℕ → ℤ) (notices : List Notice) (ret : ℤ) :
    Except Fault (Irqfd x) := do
  let p ← ownPeer s.ctx
  let (s, i, added) ← addVirqs routes s 0 p.nbEventfds
  if added then
    let s ← exec Irqfd.notice { s with useNotifier := true } notices
    if ret ≠ 0 then
      let s := { s with useNotifier := false }
      undoVirqs (s.report "ivshmem: msix_set_vector_notifiers failed") i
    else pure s
  else undoVirqs s i

/-- The body of the loop of `ivshmem_disable_irqfd`. -/
def disableVirq (removes : ℕ → ℤ) (s : Irqfd x) (i : ℕ) : Except Fault (Irqfd x) := do
  let v ← msiVector s.ctx i
  let s ← if v.unmasked then ivshmemVectorMask s i (removes i) else pure s
  ivshmemRemoveKvmMsiVirq s i

/-- `notices` are the calls that `msix_unset_vector_notifiers` makes. -/
def ivshmemDisableIrqfd (s : Irqfd x) (notices : List Notice) (removes : ℕ → ℤ) :
    Except Fault (Irqfd x) :=
  if !s.useNotifier then .ok s
  else do
    let s ← exec Irqfd.notice s notices
    let s := { s with useNotifier := false, inUse := fun _ => false }
    let p ← ownPeer s.ctx
    (List.range p.nbEventfds).foldlM (disableVirq removes) s

/-- What the core and KVM answer while MSI-X is enabled or disabled. -/
structure ConfigEnv where
  routes : ℕ → ℤ
  notices : List Notice
  ret : ℤ
  removes : ℕ → ℤ

def ivshmemWriteConfig (s : Irqfd x) (isEnabled : Bool) (env : ConfigEnv) :
    Except Fault (Irqfd x) :=
  let wasEnabled := s.msixEnabled
  let s := { s with msixEnabled := isEnabled }
  if !wasEnabled && isEnabled then ivshmemEnableIrqfd s env.routes env.notices env.ret
  else if wasEnabled && !isEnabled then ivshmemDisableIrqfd s env.notices env.removes
  else .ok s

/-- `ivshmem_reset`.  All vectors are in use already, so that `ivshmem_msix_vector_use` changes
    nothing. -/
def ivshmemReset (s : Irqfd x) (notices : List Notice) (removes : ℕ → ℤ) : Except Fault (Irqfd x) :=
  ivshmemDisableIrqfd s notices removes

/-! ### Connects -/

/-- The calls about the vector that a connect has made, where `add` is what KVM answered when the
    notifier was attached: the route shows in the entry, and the notifier in the effects. -/
def connectCalls (c c' : Ctx x) (vector : ℕ) (add : ℤ) : List KvmCall :=
  let routes : List KvmCall :=
    match msiVector c vector, msiVector c' vector with
    | .ok v, .ok v' => if !v.pdev && v'.pdev then [.addMsiRoute v'.virq] else []
    | _, _ => []
  let notifiers := (c'.out.drop c.out.length).filterMap fun
    | .addIrqfd _ virq => if add < 0 then none else some (KvmCall.addIrqfd virq)
    | _ => none
  routes ++ notifiers

/-- A connect of the device's own.  The handler does not look at `add`. -/
def connectOwn (s : Irqfd x) (fd : Fd) (env : Env) (add : ℤ) : Except Fault (Irqfd x) := do
  let vector := s.ctx.dev.nbEventfds s.ctx.dev.vmId
  let (c, _) ← processMsg s.ctx s.ctx.dev.vmId (some fd) env
  pure { s with ctx := c, kvm := s.kvm ++ (connectCalls s.ctx c vector add).map (vector, ·) }

/-! ### Events -/

/-- What changes the entries in irqfd mode. -/
inductive IrqEvent where
  | connect (fd : Fd) (env : Env) (add : ℤ)
  /-- A write to the configuration space, after which MSI-X is enabled or not. -/
  | writeConfig (isEnabled : Bool) (env : ConfigEnv)
  | notice (n : Notice)
  | reset (notices : List Notice) (removes : ℕ → ℤ)

/-- After `ivshmem_reset` the core disables MSI-X. -/
def Irqfd.next (s : Irqfd x) : IrqEvent → Except Fault (Irqfd x)
  | .connect fd env add => connectOwn s fd env add
  | .writeConfig isEnabled env => ivshmemWriteConfig s isEnabled env
  | .notice n => s.notice n
  | .reset notices removes => do
    let s ← ivshmemReset s notices removes
    pure { s with msixEnabled := false }

/-- The device after realize: MSI-X is disabled, and KVM was asked for nothing. -/
def Irqfd.start (c : Ctx x) : Irqfd x where
  ctx := c
  msixEnabled := false
  useNotifier := false
  inUse := fun _ => false
  kvm := []

/-! ## Entries and histories -/

/-- What an entry says that its vector has in KVM. -/
def MSIVector.route (e : MSIVector) : Route :=
  if e.pdev then if e.unmasked then .attached e.virq else .added e.virq else .none

namespace Irqfd

/-- `s->msi_vectors[vector]` -/
def entry (s : Irqfd x) (vector : ℕ) : Option MSIVector := s.ctx.dev.msiVectors.bind (·[vector]?)

variable {s s' s'' : Irqfd x} {v vector : ℕ} {e e' : MSIVector} {k : KvmCall}

theorem msiVector_entry (h : s.entry vector = some e) : msiVector s.ctx vector = .ok e := by
  unfold entry at h
  unfold msiVector
  cases hm : s.ctx.dev.msiVectors with
  | none =>
    rw [hm] at h
    cases h
  | some vs =>
    rw [hm, Option.bind_some] at h
    dsimp only
    rw [h]

theorem entry_of_msiVector (h : msiVector s.ctx vector = .ok e) : s.entry vector = some e := by
  unfold msiVector at h
  unfold entry
  cases hm : s.ctx.dev.msiVectors with
  | none =>
    rw [hm] at h
    cases h
  | some vs =>
    rw [hm] at h
    dsimp only at h
    rw [Option.bind_some]
    cases hv : vs[vector]? with
    | none =>
      rw [hv] at h
      cases h
    | some e' =>
      rw [hv] at h
      cases h
      rfl

theorem entry_store (h : s.entry vector = some e) (e' : MSIVector) :
    (s.store vector e').entry = update s.entry vector (some e') := by
  unfold entry at h
  cases hm : s.ctx.dev.msiVectors with
  | none =>
    rw [hm] at h
    cases h
  | some vs =>
    rw [hm, Option.bind_some] at h
    have hset : (s.store vector e').ctx.dev.msiVectors = some (vs.set vector e') :=
      congrArg (Option.map fun vs : List MSIVector => vs.set vector e') hm
    funext v
    unfold entry
    rw [hset, hm]
    by_cases hv : v = vector
    · subst hv
      rw [Function.update_self]
      exact List.getElem?_set_self (List.getElem?_eq_some_iff.1 h).1
    · rw [Function.update_of_ne hv]
      exact List.getElem?_set_ne (Ne.symm hv)

/-- **The entries say what KVM was asked for**, and KVM was asked in order. -/
structure Tracked (s : Irqfd x) : Prop where
  entry : ∀ v e, s.entry v = some e → history v s.kvm = some e.route ∧
    (e.unmasked = true → e.pdev = true)
  outside : ∀ v, s.entry v = none → history v s.kvm = some .none

/-- Of the device only the entries have changed, and MSI-X is enabled as before. -/
structure Kept (s s' : Irqfd x) : Prop where
  dev : ∃ ms, s'.ctx.dev = { s.ctx.dev with msiVectors := ms } ∧
    ms.map List.length = s.ctx.dev.msiVectors.map List.length
  shm : s'.ctx.shm = s.ctx.shm
  msixEnabled : s'.msixEnabled = s.msixEnabled

theorem Kept.refl (s : Irqfd x) : Kept s s := ⟨⟨_, rfl, rfl⟩, rfl, rfl⟩

theorem Kept.trans (h : Kept s s') (h' : Kept s' s'') : Kept s s'' := by
  obtain ⟨ms, hdev, hlen⟩ := h.dev
  obtain ⟨ms', hdev', hlen'⟩ := h'.dev
  rw [hdev] at hdev' hlen'
  exact ⟨⟨ms', hdev', hlen'.trans hlen⟩, h'.shm.trans h.shm, h'.msixEnabled.trans h.msixEnabled⟩

/-- There is an entry for each of the vectors. -/
theorem isSome_entry (s : Irqfd x) (v : ℕ) :
    (s.entry v).isSome ↔ ∃ n, s.ctx.dev.msiVectors.map List.length = some n ∧ v < n := by
  unfold entry
  cases s.ctx.dev.msiVectors <;> simp

theorem Kept.isSome (h : Kept s s') (v : ℕ) : (s'.entry v).isSome ↔ (s.entry v).isSome := by
  obtain ⟨ms, hdev, hlen⟩ := h.dev
  rw [isSome_entry, isSome_entry, hdev]
  dsimp only
  rw [hlen]

/-- Neither the core's view nor the notifiers have changed. -/
structure SameCore (s s' : Irqfd x) : Prop where
  useNotifier : s'.useNotifier = s.useNotifier
  inUse : s'.inUse = s.inUse

/-- **One entry moves with one call** that is in order. -/
theorem Tracked.step (h : Tracked s) (he : s.entry vector = some e)
    (hkvm : s'.kvm = s.kvm ++ [(vector, k)]) (hentry : s'.entry = update s.entry vector (some e'))
    (hk : e.route.next k = some e'.route) (hp : e'.unmasked = true → e'.pdev = true) :
    Tracked s' := by
  have hhist : ∀ v, history v s'.kvm =
      if vector = v then (history v s.kvm).bind (Route.next · k) else history v s.kvm := by
    intro v
    rw [hkvm]
    exact history_snoc v vector k s.kvm
  refine ⟨fun v e₁ he₁ => ?_, fun v hv => ?_⟩
  · rw [hentry] at he₁
    rw [hhist]
    by_cases hv : v = vector
    · subst hv
      rw [Function.update_self] at he₁
      cases he₁
      rw [if_pos rfl, (h.entry v e he).1]
      exact ⟨hk, hp⟩
    · rw [Function.update_of_ne hv] at he₁
      rw [if_neg (Ne.symm hv)]
      exact h.entry v e₁ he₁
  · rw [hentry] at hv
    rw [hhist]
    by_cases hvv : v = vector
    · rw [hvv, Function.update_self] at hv
      cases hv
    · rw [Function.update_of_ne hvv] at hv
      rw [if_neg (Ne.symm hvv)]
      exact h.outside v hv

theorem Tracked.move (h : Tracked s) (he : s.entry vector = some e)
    (hk : e.route.next k = some e'.route) (hp : e'.unmasked = true → e'.pdev = true) :
    Tracked ((s.call vector k).store vector e') := h.step he rfl (entry_store he e') hk hp

theorem Kept.move (s : Irqfd x) (vector : ℕ) (e' : MSIVector) (k : KvmCall) :
    Kept s ((s.call vector k).store vector e') := by
  refine ⟨⟨_, rfl, ?_⟩, rfl, rfl⟩
  show (s.ctx.dev.msiVectors.map fun vs : List MSIVector => vs.set vector e').map List.length = _
  cases s.ctx.dev.msiVectors <;> simp

theorem entry_move (he : s.entry vector = some e) (e' : MSIVector) (k : KvmCall) :
    ((s.call vector k).store vector e').entry = update s.entry vector (some e') := entry_store he e'

end Irqfd

/-! ## The functions -/

section
variable {s : Irqfd x} {vector : ℕ} {e : MSIVector} {n : Option Fd}

open Irqfd

/-- **Unmasking** attaches the notifier of a vector that is masked, unless KVM refuses. -/
theorem unmask_tracked (h : Tracked s) (he : s.entry vector = some e) (hmask : e.unmasked = false)
    (hn : s.ctx.dev.notifier s.ctx.dev.vmId vector = .ok n) (update add : ℤ) : ∃ s' ret,
      ivshmemVectorUnmask s vector update add = .ok (s', ret) ∧ Tracked s' ∧ Kept s s' ∧
      SameCore s s' ∧ s'.entry = Function.update s.entry vector
        (some { e with unmasked := decide (0 ≤ ret) }) := by
  obtain ⟨pdev, virq, unmasked⟩ := e
  obtain rfl : unmasked = false := hmask
  have hsame : s.entry = Function.update s.entry vector (some ⟨pdev, virq, false⟩) := by
    rw [← he, Function.update_eq_self]
  unfold ivshmemVectorUnmask
  rw [hn, msiVector_entry he]
  dsimp only [bind, Except.bind]
  cases pdev with
  | false =>
    refine ⟨_, einval, rfl, ⟨h.entry, h.outside⟩, ⟨⟨_, rfl, rfl⟩, rfl, rfl⟩, ⟨rfl, rfl⟩, ?_⟩
    exact hsame
  | true =>
    by_cases hu : update < 0
    · simp only [Bool.not_true, Bool.false_eq_true, if_false, if_pos hu]
      refine ⟨s, update, rfl, h, .refl s, ⟨rfl, rfl⟩, ?_⟩
      rw [decide_eq_false (by omega)]
      exact hsame
    by_cases ha : add < 0
    · simp only [Bool.not_true, Bool.false_eq_true, if_false, if_neg hu, if_pos ha]
      refine ⟨s, add, rfl, h, .refl s, ⟨rfl, rfl⟩, ?_⟩
      rw [decide_eq_false (by omega)]
      exact hsame
    · simp only [Bool.not_true, Bool.false_eq_true, if_false, if_neg hu, if_neg ha]
      refine ⟨_, 0, rfl, h.move he ?_ fun _ => rfl, .move s vector _ _, ⟨rfl, rfl⟩,
        entry_move he _ _⟩
      simp [MSIVector.route, Route.next]

/-- **Masking** detaches the notifier of a vector that is not masked. -/
theorem mask_tracked (h : Tracked s) (he : s.entry vector = some e) (hmask : e.unmasked = true)
    (hn : s.ctx.dev.notifier s.ctx.dev.vmId vector = .ok n) {remove : ℤ} (hr : 0 ≤ remove) : ∃ s',
      ivshmemVectorMask s vector remove = .ok s' ∧ Tracked s' ∧ Kept s s' ∧ SameCore s s' ∧
      s'.entry = Function.update s.entry vector (some { e with unmasked := false }) := by
  have hp : e.pdev = true := (h.entry vector e he).2 hmask
  unfold ivshmemVectorMask
  rw [hn, msiVector_entry he]
  dsimp only [bind, Except.bind]
  simp only [hp, hmask, Bool.not_true, Bool.false_eq_true, if_false, if_neg (not_lt.2 hr)]
  refine ⟨_, rfl, h.move he ?_ (by simp), .move s vector _ _, ⟨rfl, rfl⟩, entry_move he _ _⟩
  simp [MSIVector.route, hp, hmask, Route.next]

/-- **A route is added** for a vector that has none, unless KVM refuses. -/
theorem add_tracked (h : Tracked s) (he : s.entry vector = some e) (hp : e.pdev = false) (ret : ℤ) :
    ∃ s' err, addKvmMsiVirq s vector ret = .ok (s', err) ∧ Tracked s' ∧ Kept s s' ∧ SameCore s s' ∧
      s'.entry = (if ret < 0 then s.entry else
        Function.update s.entry vector (some { e with virq := ret, pdev := true })) ∧
      (err = none ↔ ¬ ret < 0) := by
  have hmask : e.unmasked = false := by
    by_contra hu
    rw [Bool.not_eq_false] at hu
    rw [(h.entry vector e he).2 hu] at hp
    cases hp
  unfold addKvmMsiVirq ivshmemAddKvmMsiVirq
  rw [msiVector_entry he]
  dsimp only [bind, Except.bind]
  by_cases hret : ret < 0
  · simp only [hp, Bool.false_eq_true, if_false, if_pos hret]
    exact ⟨_, _, rfl, h, .refl s, ⟨rfl, rfl⟩, rfl, by simp [hret]⟩
  · simp only [hp, Bool.false_eq_true, if_false, if_neg hret]
    refine ⟨_, _, rfl, h.move he ?_ fun _ => rfl, .move s vector _ _, ⟨rfl, rfl⟩,
      entry_move he _ _, by simp [hret]⟩
    simp [MSIVector.route, hp, hmask, Route.next]

/-- **The route of a masked vector is released**, if it has one. -/
theorem remove_tracked (h : Tracked s) (he : s.entry vector = some e) (hmask : e.unmasked = false) :
    ∃ s', ivshmemRemoveKvmMsiVirq s vector = .ok s' ∧ Tracked s' ∧ Kept s s' ∧ SameCore s s' ∧
      s'.entry = Function.update s.entry vector (some { e with pdev := false }) := by
  unfold ivshmemRemoveKvmMsiVirq
  rw [msiVector_entry he]
  dsimp only [bind, Except.bind]
  by_cases hp : e.pdev = true
  · simp only [hp, Bool.not_true, Bool.false_eq_true, if_false]
    refine ⟨_, rfl, h.move he ?_ ?_, .move s vector _ _, ⟨rfl, rfl⟩, entry_move he _ _⟩
    · simp [MSIVector.route, hp, hmask, Route.next]
    · rw [hmask]
      nofun
  · rw [Bool.not_eq_true] at hp
    simp only [hp, Bool.not_false, if_true]
    refine ⟨s, rfl, h, .refl s, ⟨rfl, rfl⟩, ?_⟩
    rw [← hp, ← he, Function.update_eq_self]

end

end IdtNtb
