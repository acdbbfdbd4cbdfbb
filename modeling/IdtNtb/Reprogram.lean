/-
  A window that its owner sets up anew while the peer uses it.

  The driver of `x` calls `idt_ntb_mw_set_trans` and `idt_ntb_mw_clear_trans` for
  one window, and makes their register writes one at a time; between any two of
  them the other machine does something else, such as an access through its BAR
  (`Driven.next`).

  * `Untorn` states perform an access only with the base and the limit of one set
    call, and none while a set call is under way;
  * `untorn_iff`: a run goes through such states only, exactly if every set call
    finds the window shut;
  * `reset_torn` is a window that is set up twice without being cleared.
-/
import IdtNtb.Placement

namespace IdtNtb

open Runs

/-! ## The driver at work -/

/-- The devices, and what is left of the driver's current call. -/
structure Driven where
  sys : Sys
  /-- The register writes that the call has still to make. -/
  rest : List (ConfigReg × BitVec 32)
  /-- The call is one of `idt_ntb_mw_set_trans`. -/
  set : Bool

/-- What happens next: a call begins, the current call makes its next write, or there is an action
    that is not the driver's. -/
inductive Move where
  | setTrans (pidx : ℤ) (addr size : BitVec 64)
  | clearTrans (pidx : ℤ)
  | write
  | other (a : Act)
deriving DecidableEq

/-- Why a move is not possible. -/
inductive Stuck where
  /-- The last call has not returned. -/
  | busy
  /-- There is no write to make. -/
  | idle
  | fault (f : Fault)

section
variable (ndev : IdtNtbDev) (x : Vm) (widx : ℤ)

/-- A call that fails returns at once. -/
def Driven.begin (d : Driven) (set : Bool) :
    Except Errno (List (ConfigReg × BitVec 32)) → Except Stuck Driven
  | .ok prog => if d.rest = [] then .ok ⟨d.sys, prog, set⟩ else .error .busy
  | .error _ => if d.rest = [] then .ok d else .error .busy

def Driven.next (d : Driven) : Move → Except Stuck Driven
  | .setTrans pidx addr size => d.begin true (idtNtbMwSetTrans ndev d.sys x pidx widx addr size)
  | .clearTrans pidx => d.begin false (idtNtbMwClearTrans ndev d.sys x pidx widx)
  | .write =>
    match d.rest with
    | [] => .error .idle
    | e :: rest =>
      match d.sys.next (idtNtWrite x e) with
      | .ok s => .ok { d with sys := s, rest := rest }
      | .error f => .error (.fault f)
  | .other a =>
    match d.sys.next a with
    | .ok s => .ok { d with sys := s }
    | .error f => .error (.fault f)

def Drives (d : Driven) (m : Move) (d' : Driven) : Prop := d.next ndev x widx m = .ok d'

/-- `idt_ntb_mw_set_trans` begins, and accepts its arguments. -/
def Begins (addr size : BitVec 64) (e : Driven × Move) : Prop :=
  ∃ pidx prog, e.2 = .setTrans pidx addr size ∧
    idtNtbMwSetTrans ndev e.1.sys x pidx widx addr size = .ok prog

/-- The calls find the BAR to be a 32-bit one. -/
def Only32 (w : Window) (e : Driven × Move) : Prop :=
  match e.2 with
  | .setTrans _ _ _ | .clearTrans _ =>
    ndev.is64 (idtNtRead e.1.sys x (.bar .setup w.idx)) = false
  | _ => True

/-- Anything else leaves the peer's BAR entry and the driver's selector alone. -/
def Apart (w : Window) (e : Driven × Move) : Prop :=
  match e.2 with
  | .other a => (∀ f, stored x.other (.bar f w.idx) (e.1.sys, a) = none) ∧ e.1.sys.SelFor a ∧
      selAfter x (e.1.sys.lregs x).inboundMwBar a = (e.1.sys.lregs x).inboundMwBar
  | _ => True

instance (w : Window) (e : Driven × Move) : Decidable (Only32 ndev x w e) := by
  unfold Only32
  split <;> infer_instance

end

/-- A set call is under way. -/
def Driven.Setting (d : Driven) : Prop := d.set = true ∧ d.rest ≠ []

variable {ndev : IdtNtbDev} {x y : Vm} {widx : ℤ} {w : Window} {s s' s₀ : Sys} {d d' d₀ : Driven}
  {m : Move} {t : List (Driven × Move)}

/-- The bus address of the BAR of `y` behind a window. -/
def Sys.bar (s : Sys) (y : Vm) (w : Window) : BusAddr := (s.dev y).bars w.idx

/-- **No access sees a window half written.** -/
structure Untorn (ndev : IdtNtbDev) (x : Vm) (widx : ℤ) (w : Window) (t : List (Driven × Move))
    (d : Driven) : Prop where
  /-- An access that is performed is translated and checked with what one call supplied. -/
  whole : ∀ k off n p, Asked off n → performed d.sys x.other w k off n = some p →
    ∃ e ∈ t, ∃ addr size, Begins ndev x widx addr size e ∧ p = addr + off ∧
      SetUp d.sys x.other w addr size (d.sys.bar x w) (d.sys.bar x.other w)
  /-- While a call supplies them, accesses are refused. -/
  refused : d.Setting → WindowShut d.sys x.other w

/-! ## The programs of the calls -/

section
variable {pidx : ℤ} {addr size : BitVec 64} {prog : List (ConfigReg × BitVec 32)}

theorem mwSetTrans_writes (hw : (ndev.mws widx.toNat).bar = w.idx)
    (h32 : ndev.is64 (idtNtRead s x (.bar .setup w.idx)) = false)
    (h : idtNtbMwSetTrans ndev s x pidx widx addr size = .ok prog) :
    prog = [(.oofTpart, (ndev.part pidx.toNat).setWidth 32),
      (.oofLutoff, BitVec.ofNat 32 w.idx), (.oofLdata, addr.setWidth 32),
      (.oofHdata, (addr >>> 32).setWidth 32),
      (.oofLlimit, ((s.bar x w).val + size).setWidth 32)] :=
  mwSetTrans_direct hw h32 h

theorem mwClearTrans_writes (hw : (ndev.mws widx.toNat).bar = w.idx)
    (h32 : ndev.is64 (idtNtRead s x (.bar .setup w.idx)) = false)
    (h : idtNtbMwClearTrans ndev s x pidx widx = .ok prog) :
    prog = [(.oofTpart, (ndev.part pidx.toNat).setWidth 32),
      (.oofLutoff, BitVec.ofNat 32 w.idx), (.oofLlimit, 0)] :=
  mwClearTrans_direct hw h32 h

end

/-- What one write does to an entry. -/
theorem Selection.write_entry {i : Fin 6} {u u' : Selection} {e : ConfigReg × BitVec 32}
    (h : u.write i e = some u') :
    u'.entry = u.entry ∨ ∃ f, oofField e.1 = some f ∧ u'.entry = u.entry.set f e.2 := by
  obtain ⟨r, v⟩ := e
  cases hf : oofField r with
  | some f =>
    rw [write_data hf] at h
    split_ifs at h <;> cases h
    · exact Or.inr ⟨f, rfl, rfl⟩
    · exact Or.inl rfl
  | none =>
    cases r with
    | oofTpart | oofLutoff =>
      cases h
      exact Or.inl rfl
    | oofLdata | oofHdata | oofLlimit | oofHlimit => cases hf
    | _ => cases h

/-! ## When a window is shut -/

/-- The limit refuses every offset. -/
def BARConfig.Refuses (c : BARConfig) (b : BusAddr) : Prop :=
  c.limit = 0 ∨ c.limit.toNat < b.val.toNat

theorem windowShut_iff : WindowShut s y w ↔ (s.barConfig y w.idx).Refuses (s.bar y w) := by
  constructor
  · intro h
    have hask : Asked 0 4 := ⟨by decide, Or.inl rfl⟩
    have hfirst := h .read 0 4 hask
    rw [performed_eq hask.2, BARConfig.target_eq_none _ hask.1] at hfirst
    exact hfirst.imp id fun h => h
  · intro h k off n hask
    rw [performed_eq hask.2, BARConfig.target_eq_none _ hask.1]
    exact h.imp id fun h => Nat.lt_of_lt_of_le h (Nat.le_add_right _ _)

/-! ## The invariant -/

/-- What a set call has left ends with the limit. -/
def SetLeft (rest : List (ConfigReg × BitVec 32)) : Prop :=
  ∃ pre v, rest = pre ++ [(.oofLlimit, v)] ∧ ∀ e ∈ pre, oofField e.1 ≠ some .limit

/-- What a clear call has left stores at most a limit of 0. -/
def ClearLeft (rest : List (ConfigReg × BitVec 32)) : Prop :=
  ∀ e ∈ rest, oofField e.1 = none ∨ (oofField e.1 = some .limit ∧ e.2 = 0)

section
variable (ndev x widx)

/-- The entry is inactive, or is what one set call has supplied. -/
def Whole (a : BusAddr) (t : List (Driven × Move)) (c : BARConfig) : Prop :=
  c.limit = 0 ∨ ∃ e ∈ t, ∃ addr size, Begins ndev x widx addr size e ∧
    c.limit = (a.val + size).setWidth 32 ∧ c.ltbase = addr.setWidth 32 ∧
    c.utbase = (addr >>> 32).setWidth 32

/-- The entry of the peer is whole once the current call is through, and until then it is whole or
    refuses all accesses. -/
structure Whole.Inv (w : Window) (a b : BusAddr) (t : List (Driven × Move)) (d : Driven) :
    Prop where
  own : d.sys.bar x w = a
  peer : d.sys.bar x.other w = b
  ends : ∃ u, d.rest.foldlM (Selection.write w.idx) (d.sys.selection x w.idx) = some u ∧
    Whole ndev x widx a t u.entry
  now : (d.Setting ∧ (d.sys.barConfig x.other w.idx).Refuses b ∧ SetLeft d.rest) ∨
    (¬ d.Setting ∧ Whole ndev x widx a t (d.sys.barConfig x.other w.idx) ∧ ClearLeft d.rest)

end

variable {a b : BusAddr}

theorem Whole.mono {c : BARConfig} (h : Whole ndev x widx a t c) (t' : List (Driven × Move)) :
    Whole ndev x widx a (t ++ t') c := by
  rcases h with h | ⟨e, he, h⟩
  · exact Or.inl h
  · exact Or.inr ⟨e, List.mem_append_left t' he, h⟩

/-- The driver's own write. -/
theorem inv_write {e : ConfigReg × BitVec 32} {rest : List (ConfigReg × BitVec 32)}
    (hi : Whole.Inv ndev x widx w a b t d) (hrest : d.rest = e :: rest)
    (h : Step d.sys (idtNtWrite x e) s') :
    Whole.Inv ndev x widx w a b t { d with sys := s', rest := rest } := by
  obtain ⟨u, hu, hwhole⟩ := hi.ends
  rw [hrest, List.foldlM_cons] at hu
  obtain ⟨u₁, hu₁, hend⟩ := Option.bind_eq_some_iff.1 hu
  obtain ⟨s₁, h₁, hsel, hbars⟩ := step_selection hu₁
  obtain rfl : s₁ = s' := Except.ok.inj (Eq.trans (Eq.symm h₁) h)
  have hentry : s₁.barConfig x.other w.idx = u₁.entry := congrArg Selection.entry hsel
  have hchange := Selection.write_entry hu₁
  rw [← hentry] at hchange
  refine ⟨?_, ?_, ⟨u, by rw [hsel]; exact hend, hwhole⟩, ?_⟩
  · exact (congrFun (hbars x) w.idx).trans hi.own
  · exact (congrFun (hbars x.other) w.idx).trans hi.peer
  rcases hi.now with ⟨hset, hshut, pre, v, hpre, hlimit⟩ | ⟨hset, hkept, hleft⟩
  · rw [hrest] at hpre
    cases pre with
    | nil =>
      -- the limit was the last write
      obtain ⟨rfl, rfl⟩ := List.cons.inj hpre
      obtain rfl : u₁ = u := Option.some.inj hend
      exact Or.inr ⟨fun hs => hs.2 rfl, hentry ▸ hwhole, nofun⟩
    | cons e' pre =>
      obtain ⟨rfl, rfl⟩ := List.cons.inj hpre
      refine Or.inl ⟨⟨hset.1, by simp⟩, ?_, pre, v, rfl, fun e he => hlimit e (by simp [he])⟩
      have hkeep : (s₁.barConfig x.other w.idx).limit =
          (d.sys.barConfig x.other w.idx).limit := by
        rcases hchange with hc | ⟨f, hf, hc⟩
        · exact congrArg BARConfig.limit hc
        · rw [hc]
          cases f with
          | limit => exact absurd hf (hlimit e (by simp))
          | setup | ltbase | utbase => rfl
      unfold BARConfig.Refuses at hshut ⊢
      rw [hkeep]
      exact hshut
  · refine Or.inr ⟨fun hs => hset ⟨hs.1, by rw [hrest]; simp⟩, ?_, fun e he => hleft e ?_⟩
    · rcases hchange with hc | ⟨f, hf, hc⟩
      · have hc' : s₁.barConfig x.other w.idx = d.sys.barConfig x.other w.idx := hc
        rw [hc']
        exact hkept
      · rcases hleft e (by rw [hrest]; simp) with hnone | ⟨hlim, hzero⟩
        · rw [hnone] at hf
          cases hf
        · rw [hlim] at hf
          cases hf
          left
          rw [hc, hzero]
          rfl
    · rw [hrest]
      exact List.mem_cons_of_mem _ he

theorem BARConfig.ext_get {c c' : BARConfig} (h : ∀ f, c.get f = c'.get f) : c = c' := by
  obtain ⟨c1, c2, c3, c4⟩ := c
  obtain ⟨c1', c2', c3', c4'⟩ := c'
  obtain rfl : c1 = c1' := h .setup
  obtain rfl : c2 = c2' := h .limit
  obtain rfl : c3 = c3' := h .ltbase
  obtain rfl : c4 = c4' := h .utbase
  rfl

/-- An action that is not the driver's. -/
theorem inv_other {act : Act} (hi : Whole.Inv ndev x widx w a b t d)
    (hap : Apart x w (d, .other act)) (h : Step d.sys act s') :
    Whole.Inv ndev x widx w a b t { d with sys := s' } := by
  obtain ⟨hno, hsel, hmove⟩ := hap
  have hentry : s'.barConfig x.other w.idx = d.sys.barConfig x.other w.idx :=
    BARConfig.ext_get fun f => step_bar hsel h (hno f)
  have hselect : s'.selection x w.idx = d.sys.selection x w.idx := by
    refine Selection.ext ?_ hentry
    exact congrArg BitVec.toNat ((step_selector h x).trans hmove)
  refine ⟨?_, ?_, ?_, ?_⟩
  · exact (congrFun (step_peers h x).2.2 w.idx).trans hi.own
  · exact (congrFun (step_peers h x.other).2.2 w.idx).trans hi.peer
  · dsimp only
    rw [hselect]
    exact hi.ends
  · dsimp only
    rw [hentry]
    exact hi.now

/-- What writes no register, such as an access through the BAR, keeps apart. -/
theorem apart_of_noWrite {act : Act} (ha : act.NoWrite) : Apart x w (d, .other act) := by
  refine ⟨fun f => stored_noWrite _ ha, fun y r v hw => absurd hw (ha y r v), ?_⟩
  unfold selAfter
  cases act with
  | write y addr v =>
    refine if_neg ?_
    rintro ⟨-, rfl⟩
    exact ha y _ v rfl
  | _ => rfl

/-- A call of `idt_ntb_mw_set_trans` begins while the window is shut. -/
theorem inv_setTrans {pidx : ℤ} {addr size : BitVec 64} {prog : List (ConfigReg × BitVec 32)}
    (hw : (ndev.mws widx.toNat).bar = w.idx) (hi : Whole.Inv ndev x widx w a b t d)
    (h32 : Only32 ndev x w (d, .setTrans pidx addr size))
    (h : idtNtbMwSetTrans ndev d.sys x pidx widx addr size = .ok prog)
    (hshut : WindowShut d.sys x.other w) :
    Whole.Inv ndev x widx w a b (t ++ [(d, .setTrans pidx addr size)]) ⟨d.sys, prog, true⟩ := by
  have hprog := mwSetTrans_writes hw h32 h
  rw [hi.own] at hprog
  refine ⟨hi.own, hi.peer, ?_, Or.inl ⟨⟨rfl, by rw [hprog]; simp⟩, ?_, ?_⟩⟩
  · refine ⟨⟨w.idx, { (d.sys.selection x w.idx).entry with
      limit := (a.val + size).setWidth 32
      ltbase := addr.setWidth 32
      utbase := (addr >>> 32).setWidth 32 }⟩, ?_, ?_⟩
    · dsimp only
      rw [hprog]
      cases w <;> rfl
    · exact Or.inr ⟨(d, .setTrans pidx addr size), by simp, addr, size, ⟨pidx, prog, rfl, h⟩,
        rfl, rfl, rfl⟩
  · rw [← hi.peer]
    exact windowShut_iff.1 hshut
  · refine ⟨prog.take 4, _, by rw [hprog]; rfl, ?_⟩
    rw [hprog]
    simp [oofField]

/-- A call of `idt_ntb_mw_clear_trans` begins. -/
theorem inv_clearTrans {pidx : ℤ} {prog : List (ConfigReg × BitVec 32)}
    (hw : (ndev.mws widx.toNat).bar = w.idx) (hi : Whole.Inv ndev x widx w a b t d)
    (hidle : d.rest = []) (h32 : Only32 ndev x w (d, .clearTrans pidx))
    (h : idtNtbMwClearTrans ndev d.sys x pidx widx = .ok prog) :
    Whole.Inv ndev x widx w a b t ⟨d.sys, prog, false⟩ := by
  have hprog := mwClearTrans_writes hw h32 h
  refine ⟨hi.own, hi.peer, ?_, Or.inr ⟨fun hs => (by cases hs.1), ?_, ?_⟩⟩
  · refine ⟨⟨w.idx, { (d.sys.selection x w.idx).entry with limit := 0 }⟩, ?_, Or.inl rfl⟩
    dsimp only
    rw [hprog]
    cases w <;> rfl
  · rcases hi.now with ⟨hset, -⟩ | ⟨-, hkept, -⟩
    · exact absurd hidle hset.2
    · exact hkept
  · dsimp only
    rw [hprog]
    simp [ClearLeft, oofField]

theorem Whole.Inv.mono (hi : Whole.Inv ndev x widx w a b t d) (t' : List (Driven × Move)) :
    Whole.Inv ndev x widx w a b (t ++ t') d := by
  obtain ⟨u, hu, hwhole⟩ := hi.ends
  refine ⟨hi.own, hi.peer, ⟨u, hu, hwhole.mono t'⟩, ?_⟩
  exact hi.now.imp id fun ⟨h1, h2, h3⟩ => ⟨h1, h2.mono t', h3⟩

theorem begin_ok {set : Bool} {r : Except Errno (List (ConfigReg × BitVec 32))}
    (h : d.begin set r = .ok d') :
    d.rest = [] ∧ ((∃ prog, r = .ok prog ∧ d' = ⟨d.sys, prog, set⟩) ∨
      ((∃ err, r = .error err) ∧ d' = d)) := by
  cases r with
  | ok prog =>
    simp only [Driven.begin] at h
    split_ifs at h with hidle
    cases h
    exact ⟨hidle, Or.inl ⟨prog, rfl, rfl⟩⟩
  | error err =>
    simp only [Driven.begin] at h
    split_ifs at h with hidle
    cases h
    exact ⟨hidle, Or.inr ⟨⟨err, rfl⟩, rfl⟩⟩

/-- **One move** keeps the invariant, if a set call finds the window shut. -/
theorem inv_step (hw : (ndev.mws widx.toNat).bar = w.idx) (hi : Whole.Inv ndev x widx w a b t d)
    (h32 : Only32 ndev x w (d, m)) (hap : Apart x w (d, m))
    (hshut : ∀ addr size, Begins ndev x widx addr size (d, m) → WindowShut d.sys x.other w)
    (h : Drives ndev x widx d m d') : Whole.Inv ndev x widx w a b (t ++ [(d, m)]) d' := by
  cases m with
  | setTrans pidx addr size =>
    obtain ⟨-, ⟨prog, hprog, rfl⟩ | ⟨-, rfl⟩⟩ := begin_ok h
    · exact inv_setTrans hw hi h32 hprog (hshut addr size ⟨pidx, prog, rfl, hprog⟩)
    · exact hi.mono _
  | clearTrans pidx =>
    obtain ⟨hidle, ⟨prog, hprog, rfl⟩ | ⟨-, rfl⟩⟩ := begin_ok h
    · exact (inv_clearTrans hw hi hidle h32 hprog).mono _
    · exact hi.mono _
  | write =>
    unfold Drives Driven.next at h
    dsimp only at h
    cases hrest : d.rest with
    | nil =>
      rw [hrest] at h
      cases h
    | cons e rest =>
      rw [hrest] at h
      cases hst : d.sys.next (idtNtWrite x e) with
      | error f => simp only [hst] at h; cases h
      | ok s' =>
        simp only [hst] at h
        cases h
        exact (inv_write hi hrest hst).mono _
  | other act =>
    unfold Drives Driven.next at h
    dsimp only at h
    cases hst : d.sys.next act with
    | error f => rw [hst] at h; cases h
    | ok s' =>
      rw [hst] at h
      cases h
      exact (inv_other hi hap hst).mono _

/-- No call is under way. -/
def Driven.idle (s : Sys) : Driven := ⟨s, [], false⟩

theorem inv_run (hw : (ndev.mws widx.toNat).bar = w.idx)
    (h0 : (s₀.barConfig x.other w.idx).limit = 0)
    (h : Run (Drives ndev x widx) (.idle s₀) t d) (h32 : ∀ e ∈ t, Only32 ndev x w e)
    (hap : ∀ e ∈ t, Apart x w e)
    (hshut : ∀ e ∈ t, ∀ addr size, Begins ndev x widx addr size e →
      WindowShut e.1.sys x.other w) :
    Whole.Inv ndev x widx w (s₀.bar x w) (s₀.bar x.other w) t d := by
  induction h with
  | nil =>
    exact ⟨rfl, rfl, ⟨_, rfl, Or.inl h0⟩, Or.inr ⟨fun hs => hs.2 rfl, Or.inl h0, nofun⟩⟩
  | @snoc t d₁ m d₂ _ hm ih =>
    have hi := ih (fun e he => h32 e (by simp [he])) (fun e he => hap e (by simp [he]))
      (fun e he => hshut e (by simp [he]))
    exact inv_step hw hi (h32 _ (by simp)) (hap _ (by simp)) (hshut _ (by simp)) hm

theorem untorn_of_inv (hi : Whole.Inv ndev x widx w a b t d) : Untorn ndev x widx w t d := by
  refine ⟨fun k off n p hask hp => ?_, fun hset => ?_⟩
  · -- the window is open, so what it holds was supplied by one call
    have hopen : ¬ (d.sys.barConfig x.other w.idx).Refuses b := by
      intro hr
      rw [← hi.peer] at hr
      rw [windowShut_iff.2 hr k off n hask] at hp
      cases hp
    rcases hi.now with ⟨-, hshut, -⟩ | ⟨-, hkept, -⟩
    · exact absurd hshut hopen
    rcases hkept with hzero | ⟨e, he, addr, size, hb, hl, hlt, hut⟩
    · exact absurd (Or.inl hzero) hopen
    rw [← hi.own] at hl
    have hsetup : SetUp d.sys x.other w addr size (d.sys.bar x w) (d.sys.bar x.other w) :=
      ⟨hl, hlt, hut, rfl⟩
    exact ⟨e, he, addr, size, hb, ((hsetup.performed_iff hask k p).1 hp).2, hsetup⟩
  · rcases hi.now with ⟨-, hshut, -⟩ | ⟨hnot, -⟩
    · rw [← hi.peer] at hshut
      exact windowShut_iff.2 hshut
    · exact absurd hset hnot

/-- **No access sees the window half written, at any point of a run, exactly if every set call
    finds the window shut.** -/
theorem untorn_iff (hw : (ndev.mws widx.toNat).bar = w.idx)
    (h0 : (s₀.barConfig x.other w.idx).limit = 0)
    (h : Run (Drives ndev x widx) (.idle s₀) t d) (h32 : ∀ e ∈ t, Only32 ndev x w e)
    (hap : ∀ e ∈ t, Apart x w e) :
    (∀ t₁ d₁, t₁ <+: t → Run (Drives ndev x widx) (.idle s₀) t₁ d₁ →
      Untorn ndev x widx w t₁ d₁) ↔
    ∀ e ∈ t, ∀ addr size, Begins ndev x widx addr size e → WindowShut e.1.sys x.other w := by
  constructor
  · rintro hall e he addr size ⟨pidx, prog, hm, hprog⟩
    obtain ⟨t₁, t₂, d₁, rfl, h₁, hst⟩ := h.fired he
    have hun := hall (t₁ ++ [e]) d₁ ⟨t₂, by simp⟩ (h₁.snoc hst)
    have h32e := h32 e he
    obtain ⟨d₀, m⟩ := e
    dsimp only at hm hprog hst h₁
    subst hm
    obtain ⟨-, ⟨prog', hprog', rfl⟩ | ⟨⟨err, herr⟩, -⟩⟩ := begin_ok hst
    · refine hun.refused ⟨rfl, ?_⟩
      rw [mwSetTrans_writes hw h32e hprog']
      simp
    · rw [hprog] at herr
      cases herr
  · intro hshut t₁ d₁ hpre h₁
    refine untorn_of_inv (inv_run hw h0 h₁ (fun e he => h32 e (hpre.subset he))
      (fun e he => hap e (hpre.subset he)) fun e he => hshut e (hpre.subset he))

/-- The window is set up once, and the other guest reads through it before and after. -/
def setUpOnce : List Move :=
  [.setTrans 0 0x10000 0x1000, .write, .write, .write, .other (.barRead .vm2 .bar2 0 4 true),
    .write, .write, .other (.barRead .vm2 .bar2 0 4 true)]

/-- Both machines have their BARs at the first MiB. -/
def Driven.placed : Driven := .idle (Sys.placed (.mib 1) (.mib 1))

theorem untorn_once : ∃ d, Run (Drives directDev .vm1 0) .placed
      (trace (Driven.next directDev .vm1 0) .placed setUpOnce) d ∧
    Untorn directDev .vm1 0 .bar2 (trace (Driven.next directDev .vm1 0) .placed setUpOnce) d ∧
    performed d.sys .vm2 .bar2 .read 0 4 = some 0x10000 := by
  obtain ⟨d, hd, hp⟩ : ∃ d, exec (Driven.next directDev .vm1 0) .placed setUpOnce = .ok d ∧
      performed d.sys .vm2 .bar2 .read 0 4 = some 0x10000 := ⟨_, rfl, by decide⟩
  have hrun : Run (Drives directDev .vm1 0) .placed _ d := Run.of_exec hd
  refine ⟨d, hrun, ?_, hp⟩
  have hmoves : ∀ m ∈ setUpOnce, m = .setTrans 0 0x10000 0x1000 ∨ m = .write ∨
      m = .other (.barRead .vm2 .bar2 0 4 true) := by decide
  refine (untorn_iff (w := .bar2) rfl rfl hrun (by decide) ?_).2 ?_ _ _ (List.prefix_refl _) hrun
  · rintro ⟨d₁, m⟩ he
    rcases hmoves m (mem_of_mem_trace he) with rfl | rfl | rfl
    · trivial
    · trivial
    · exact apart_of_noWrite nofun
  · -- the only call is the first move
    rintro ⟨d₁, m⟩ he addr size ⟨pidx, prog, rfl, -⟩
    have hfirst : ∀ e ∈ trace (Driven.next directDev .vm1 0) .placed setUpOnce,
        e.2 = .setTrans 0 0x10000 0x1000 → (e.1.sys.barConfig .vm2 2).limit = 0 := by decide
    have hm := (hmoves _ (mem_of_mem_trace he)).resolve_right nofun
    exact windowShut_iff.2 (Or.inl (hfirst _ he hm))

/-- The window is set up, and once more for an address above 4 GiB, as far as its low half. -/
def setUpTwice : List Move :=
  [.setTrans 0 0x10000 0x1000, .write, .write, .write, .write, .write,
    .setTrans 0 0x200020000 0x1000, .write, .write, .write]

/-- **A window that is set up anew without being cleared is half written.** -/
theorem reset_torn : (Driven.placed.sys.barConfig .vm2 2).limit = 0 ∧
    ¬ ∀ t d, Run (Drives directDev .vm1 0) .placed t d → (∀ e ∈ t, Only32 directDev .vm1 .bar2 e) →
      (∀ e ∈ t, Apart .vm1 .bar2 e) → Untorn directDev .vm1 0 .bar2 t d := by
  refine ⟨rfl, fun hall => ?_⟩
  obtain ⟨d, hd, hp⟩ : ∃ d, exec (Driven.next directDev .vm1 0) .placed setUpTwice = .ok d ∧
      performed d.sys .vm2 .bar2 .read 0 4 = some 0x20000 := ⟨_, rfl, by decide⟩
  have hmoves : ∀ m ∈ setUpTwice, m = .setTrans 0 0x10000 0x1000 ∨
      m = .setTrans 0 0x200020000 0x1000 ∨ m = .write := by decide
  have hap : ∀ e ∈ trace (Driven.next directDev .vm1 0) .placed setUpTwice,
      Apart .vm1 .bar2 e := by
    rintro ⟨d₁, m⟩ he
    rcases hmoves m (mem_of_mem_trace he) with rfl | rfl | rfl <;> trivial
  -- the low half of the second call, with the high half of the first
  have hun := hall _ d (Run.of_exec hd) (by decide) hap
  obtain ⟨⟨d₁, m⟩, he, addr, size, ⟨pidx, prog, rfl, -⟩, haddr, -⟩ :=
    hun.whole .read 0 4 _ ⟨by decide, Or.inl rfl⟩ hp
  rcases hmoves _ (mem_of_mem_trace he) with h | h | h
  · cases h
    exact absurd haddr (by decide)
  · cases h
    exact absurd haddr (by decide)
  · cases h

end IdtNtb
