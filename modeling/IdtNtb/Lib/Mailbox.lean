/-
  A one-place mailbox, and what its history says about its content.

  A value is put into the empty box, looked at while it is there, and released.
  The steps are `Ev.Step`; a run of them is a `Runs.Run` from the empty box.

  * `last_put`: a full box holds the last value put into it;
  * `release_between`: between two puts the box was released;
  * `taken_eq`: if the box is released only after its value was looked at, the
    values looked at, one for each release, and the one still in the box are
    together exactly the values put.
-/
import IdtNtb.Lib.Runs

namespace Mailbox

open Runs

variable {β : Type}

/-- What happens to a mailbox. -/
inductive Ev (β : Type) where
  | put (v : β)
  | get (v : β)
  | release
  /-- The box is not used. -/
  | skip

namespace Ev

/-- The box before and after an event. -/
inductive Step : Option β → Ev β → Option β → Prop
  | put (v : β) : Step none (.put v) (some v)
  | get (v : β) : Step (some v) (.get v) (some v)
  | release (v : β) : Step (some v) .release none
  | skip (m : Option β) : Step m .skip m

def put? : Ev β → Option β
  | put v => some v
  | _ => none

def IsGet (e : Ev β) : Prop := ∃ v, e = get v

def IsRelease (e : Ev β) : Prop := e = release

end Ev

/-- The values put into the box. -/
def puts (l : List (Ev β)) : List β := l.filterMap Ev.put?

/-- What is known to the one who empties the box: the value seen since the last release, and the
    values that were seen last before each release. -/
def note : Option β × List β → Ev β → Option β × List β
  | (_, l), .get v => (some v, l)
  | (r, l), .release => (none, l ++ r.toList)
  | g, _ => g

def notes (l : List (Ev β)) : Option β × List β := l.foldl note (none, [])

/-- The values looked at, one for each release. -/
def taken (l : List (Ev β)) : List β := (notes l).2

/-- The box is released only after its value was looked at. -/
def LooksFirst (l : List (Ev β)) : Prop :=
  ∀ l₁ e l₂, l = l₁ ++ e :: l₂ → e.IsRelease → Since Ev.IsGet Ev.IsRelease l₁

section
variable {l : List (Ev β)} {e : Ev β}

theorem puts_snoc : puts (l ++ [e]) = puts l ++ e.put?.toList := by
  cases e <;> simp [puts, Ev.put?, List.filterMap_cons]

theorem notes_snoc : notes (l ++ [e]) = note (notes l) e := by simp [notes]

theorem LooksFirst.init (h : LooksFirst (l ++ [e])) : LooksFirst l := by
  intro l₁ e' l₂ hl
  exact h l₁ e' (l₂ ++ [e]) (by simp [hl])

theorem LooksFirst.last (h : LooksFirst (l ++ [e])) (he : e.IsRelease) :
    Since Ev.IsGet Ev.IsRelease l :=
  h l e [] rfl he

/-- A value is noted exactly when the box was looked at since the last release. -/
theorem notes_isSome (l : List (Ev β)) :
    (notes l).1.isSome = true ↔ Since Ev.IsGet Ev.IsRelease l := by
  induction l using List.reverseRecOn with
  | nil => simp [notes, since_nil]
  | append_singleton l e ih =>
    rw [notes_snoc, since_snoc, ← ih]
    cases e <;> simp [note, Ev.IsGet, Ev.IsRelease]

end

section
variable {t : List (Option β × Ev β)} {m : Option β}

/-- The events of a run. -/
def events (t : List (Option β × Ev β)) : List (Ev β) := t.map Prod.snd

theorem events_snoc (t : List (Option β × Ev β)) (e) : events (t ++ [e]) = events t ++ [e.2] := by
  simp [events]

/-- A full box holds the last value put into it. -/
theorem last_put (h : Run Ev.Step none t m) (hm : m ≠ none) : (puts (events t)).getLast? = m := by
  induction h with
  | nil => exact absurd rfl hm
  | snoc _ ha ih =>
    rw [events_snoc, puts_snoc]
    cases ha with
    | put v => simp [Ev.put?]
    | get v => simpa [Ev.put?] using ih (by simp)
    | release v => exact absurd rfl hm
    | skip m => simpa [Ev.put?] using ih hm

/-- Between two puts the box was released. -/
theorem release_between {t₁ t₂ t₃ : List (Option β × Ev β)} {m₁ m₂ : Option β} {v w : β}
    (h : Run Ev.Step none (t₁ ++ (m₁, .put v) :: (t₂ ++ (m₂, .put w) :: t₃)) m) :
    ∃ e ∈ t₂, e.2 = .release := by
  by_contra hno
  obtain ⟨-, m₃, h1, h2⟩ := h.split
  obtain ⟨h3, m₄, h4, -⟩ := h2.split
  -- without a release the box stays full
  have hfull : m₂ ≠ none := by
    refine Run.inv_of (fun m => m ≠ none) (fun e => e.2 ≠ Ev.release) ?_ ?_ h3 ?_
    · cases h1
      simp
    · intro s a s' hs ha hst
      cases hst with
      | release => exact absurd rfl ha
      | skip => exact hs
      | _ => simp
    · intro e he hr
      exact hno ⟨e, he, hr⟩
  cases h4
  exact hfull rfl

/-- **Nothing is lost, doubled or reordered**: the values taken and the one in the box are the
    values put. -/
theorem taken_eq (h : Run Ev.Step none t m) (hl : LooksFirst (events t)) :
    taken (events t) ++ m.toList = puts (events t) ∧
      ∀ v, (notes (events t)).1 = some v → m = some v := by
  unfold taken
  induction h with
  | nil => exact ⟨rfl, nofun⟩
  | @snoc t m e m' _ ha ih =>
    rw [events_snoc] at hl ⊢
    obtain ⟨ih1, ih2⟩ := ih hl.init
    rw [puts_snoc, notes_snoc]
    cases ha with
    | put v =>
      refine ⟨?_, fun w hw => ?_⟩
      · rw [← ih1]
        simp [note, Ev.put?]
      · -- the empty box had nothing noted
        exact nomatch ih2 w hw
    | get v =>
      refine ⟨?_, fun w hw => ?_⟩
      · rw [← ih1]
        simp [note, Ev.put?]
      · simpa [note] using hw
    | release v =>
      obtain ⟨w, hw⟩ := Option.isSome_iff_exists.1 ((notes_isSome _).2 (hl.last rfl))
      have hv := ih2 w hw
      refine ⟨?_, fun u hu => ?_⟩
      · rw [← ih1]
        simp [note, Ev.put?, hw, hv]
      · simp [note] at hu
    | skip =>
      refine ⟨?_, fun w hw => ih2 w hw⟩
      rw [← ih1]
      simp [note, Ev.put?]

theorem taken_initial (h : Run Ev.Step none t m) (hl : LooksFirst (events t)) :
    taken (events t) <+: puts (events t) :=
  ⟨m.toList, (taken_eq h hl).1⟩

end

end Mailbox
