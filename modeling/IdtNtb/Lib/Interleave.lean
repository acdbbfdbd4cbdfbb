/-
  Interleavings of several programs, and a selector that they share.

  An interleaving is a list of steps, each with the client that takes it; `part`
  reads the program of one client off it.

  * `exists_weave`: programs can be interleaved in every order in which their
    kinds of steps come;
  * `InTurn` is the discipline of a selector without a lock: a client uses it only
    while the client itself was the last one to select.
-/
import Mathlib.Data.List.Basic
import Mathlib.Logic.Function.Basic

namespace Interleave

open Function (update)

variable {ι α β : Type}

/-! ## The programs -/

section
variable [DecidableEq ι] {i j : ι} {a : α} {l l' : List (ι × α)}

/-- What one client does. -/
def part (i : ι) (l : List (ι × α)) : List α := (l.filter (·.1 = i)).map Prod.snd

@[simp] theorem part_nil : part i ([] : List (ι × α)) = [] := rfl

@[simp] theorem part_cons_self : part i ((i, a) :: l) = a :: part i l := by simp [part]

theorem part_cons_of_ne (h : j ≠ i) : part i ((j, a) :: l) = part i l := by simp [part, h]

@[simp] theorem part_append : part i (l ++ l') = part i l ++ part i l' := by simp [part]

@[simp] theorem mem_part : a ∈ part i l ↔ (i, a) ∈ l := by
  constructor
  · intro h
    obtain ⟨⟨j, a⟩, he, rfl⟩ := List.mem_map.1 h
    obtain ⟨hmem, hi⟩ := List.mem_filter.1 he
    obtain rfl : j = i := by simpa using hi
    exact hmem
  · intro h
    exact List.mem_map.2 ⟨(i, a), List.mem_filter.2 ⟨h, by simp⟩, rfl⟩

/-- A client alone. -/
theorem part_label (i j : ι) (as : List α) :
    part i (as.map (Prod.mk j)) = if j = i then as else [] := by
  induction as with
  | nil => simp
  | cons a as ih =>
    rw [List.map_cons]
    by_cases h : j = i
    · subst h
      rw [part_cons_self, ih, if_pos rfl, if_pos rfl]
    · rw [part_cons_of_ne h, ih, if_neg h, if_neg h]

theorem part_map (f : α → β) (i : ι) (l : List (ι × α)) :
    part i (l.map fun e => (e.1, f e.2)) = (part i l).map f := by
  induction l with
  | nil => rfl
  | cons e l ih =>
    obtain ⟨j, a⟩ := e
    by_cases h : j = i
    · subst h
      simp [ih]
    · simp only [List.map_cons, part_cons_of_ne h, ih]

/-- The first step of a client. -/
theorem part_eq_cons {as : List α} (h : part i l = a :: as) :
    ∃ l₁ l₂, l = l₁ ++ (i, a) :: l₂ ∧ part i l₁ = [] ∧ part i l₂ = as := by
  induction l with
  | nil => cases h
  | cons e l ih =>
    obtain ⟨j, b⟩ := e
    by_cases hj : j = i
    · subst hj
      rw [part_cons_self] at h
      obtain ⟨rfl, rfl⟩ := List.cons.inj h
      exact ⟨[], l, rfl, rfl, rfl⟩
    · rw [part_cons_of_ne hj] at h
      obtain ⟨l₁, l₂, rfl, h1, h2⟩ := ih h
      refine ⟨(j, b) :: l₁, l₂, rfl, ?_, h2⟩
      rw [part_cons_of_ne hj, h1]

/-- **Programs fill every pattern of their steps.** -/
theorem exists_weave (key : α → β) {p : ι → List α} {l : List (ι × β)}
    (h : ∀ i, part i l = (p i).map key) :
    ∃ ws : List (ι × α), ws.map (fun e => (e.1, key e.2)) = l ∧ ∀ i, part i ws = p i := by
  induction l generalizing p with
  | nil =>
    refine ⟨[], rfl, fun i => ?_⟩
    simpa using h i
  | cons e l ih =>
    obtain ⟨i, b⟩ := e
    have hi := h i
    rw [part_cons_self] at hi
    obtain ⟨a, as, hp, rfl, has⟩ := List.map_eq_cons_iff.1 hi.symm
    obtain ⟨ws, hws, hm⟩ := ih (p := update p i as) fun j => by
      by_cases hj : j = i
      · subst hj
        rw [Function.update_self, has]
      · rw [Function.update_of_ne hj, ← h j, part_cons_of_ne (Ne.symm hj)]
    refine ⟨(i, a) :: ws, by rw [List.map_cons, hws], fun j => ?_⟩
    by_cases hj : j = i
    · subst hj
      rw [part_cons_self, hm, Function.update_self, hp]
    · rw [part_cons_of_ne (Ne.symm hj), hm, Function.update_of_ne hj]

end

/-! ## The selector -/

section
variable (Selects Uses : α → Prop) [DecidablePred Selects] {o : Option ι} {l l' : List (ι × α)}

/-- The client that selected last, after one more step. -/
def owner (o : Option ι) (e : ι × α) : Option ι := if Selects e.2 then some e.1 else o

/-- A client uses the selector only while it has selected last. -/
def InTurn : Option ι → List (ι × α) → Prop
  | _, [] => True
  | o, e :: l => (Uses e.2 → o = some e.1) ∧ InTurn (owner Selects o e) l

variable {Selects Uses}

theorem inTurn_append : InTurn Selects Uses o (l ++ l') ↔
    InTurn Selects Uses o l ∧ InTurn Selects Uses (l.foldl (owner Selects) o) l' := by
  induction l generalizing o with
  | nil => simp [InTurn]
  | cons e l ih => simp only [List.cons_append, InTurn, ih, and_assoc, List.foldl_cons]

/-- Where nobody selects, the owner's uses are in turn. -/
theorem inTurn_of_owner (hsel : ∀ e ∈ l, ¬ Selects e.2) (huse : ∀ e ∈ l, Uses e.2 → o = some e.1) :
    InTurn Selects Uses o l := by
  induction l with
  | nil => trivial
  | cons e l ih =>
    have hown : owner Selects o e = o := if_neg (hsel e (by simp))
    refine ⟨huse e (by simp), ?_⟩
    rw [hown]
    exact ih (fun e' he' => hsel e' (by simp [he'])) fun e' he' => huse e' (by simp [he'])

/-- A client that selects is the owner from there on. -/
theorem inTurn_cons_select {e : ι × α} (hs : Selects e.2) (hu : ¬ Uses e.2) :
    InTurn Selects Uses o (e :: l) ↔ InTurn Selects Uses (some e.1) l := by
  have hown : owner Selects o e = some e.1 := if_pos hs
  rw [InTurn, hown]
  exact ⟨fun h => h.2, fun h => ⟨fun hno => absurd hno hu, h⟩⟩

end

end Interleave
