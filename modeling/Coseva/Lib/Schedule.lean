/-
  Systems that take steps under a schedule, and ranks that bring them to their end.

  * `run`: the steps of a schedule;
  * `Keeps.run`: what every step keeps, a run keeps;
  * `Ranked`: every step brings a system nearer to its end, so that no run is longer than its
    measure (`Ranked.run_length`) and every run can be carried to an end (`Ranked.exists_end`);
  * `sum_set`: the sum of the ranks where one of many has changed.
-/
import Mathlib.Algebra.BigOperators.Group.List.Basic
import Mathlib.Algebra.GroupWithZero.Nat
import Mathlib.Tactic.Common

namespace Schedule

variable {S A : Type}

/-- The steps of a schedule. -/
def run (step : S → A → Option S) : List A → S → Option S
  | [], s => some s
  | a :: schedule, s => (step s a).bind (run step schedule)

/-- Every step keeps `I`. -/
def Keeps (step : S → A → Option S) (I : S → Prop) : Prop :=
  ∀ ⦃s s' : S⦄ ⦃a : A⦄, I s → step s a = some s' → I s'

/-- Every step keeps `I`, and brings a state in `I` nearer to its end. -/
structure Ranked (step : S → A → Option S) (I : S → Prop) (measure : S → ℕ) : Prop where
  keeps : Keeps step I
  nearer : ∀ ⦃s s' : S⦄ ⦃a : A⦄, I s → step s a = some s' → measure s' < measure s

variable {step : S → A → Option S} {I : S → Prop} {measure : S → ℕ} {s s' : S}

theorem run_cons {a : A} {schedule : List A} :
    run step (a :: schedule) s = some s' ↔ ∃ s₁, step s a = some s₁ ∧ run step schedule s₁ = some s' :=
  Option.bind_eq_some_iff

/-- What every step keeps, a run keeps. -/
theorem Keeps.run (h : Keeps step I) {schedule : List A} (hs : I s)
    (hrun : run step schedule s = some s') : I s' := by
  induction schedule generalizing s with
  | nil => exact Option.some.inj hrun ▸ hs
  | cons a schedule ih =>
    obtain ⟨s₁, hstep, hrest⟩ := run_cons.mp hrun
    exact ih (h hs hstep) hrest

/-- A run has no more steps than its measure. -/
theorem Ranked.run_length (h : Ranked step I measure) {schedule : List A} (hs : I s)
    (hrun : Schedule.run step schedule s = some s') : schedule.length + measure s' ≤ measure s := by
  induction schedule generalizing s with
  | nil =>
    obtain rfl := Option.some.inj hrun
    exact Nat.le_of_eq (Nat.zero_add _)
  | cons a schedule ih =>
    obtain ⟨s₁, hstep, hrest⟩ := run_cons.mp hrun
    have hlt := h.nearer hs hstep
    have hle := ih (h.keeps hs hstep) hrest
    rw [List.length_cons]
    omega

/-- A run that can go on until it is in `E` can be carried there. -/
theorem Ranked.exists_end (h : Ranked step I measure) {E : S → Prop}
    (hlive : ∀ s, I s → ¬ E s → ∃ a s', step s a = some s') (hs : I s) :
    ∃ schedule s', Schedule.run step schedule s = some s' ∧ E s' := by
  induction hn : measure s using Nat.strongRecOn generalizing s with
  | ind n ih =>
    by_cases hend : E s
    · exact ⟨[], s, rfl, hend⟩
    · obtain ⟨a, s₁, hstep⟩ := hlive s hs hend
      obtain ⟨schedule, s', hrun, hs'⟩ := ih _ (hn ▸ h.nearer hs hstep) (h.keeps hs hstep) rfl
      exact ⟨a :: schedule, s', run_cons.mpr ⟨s₁, hstep, hrun⟩, hs'⟩

/-- A sum in which one term has changed. -/
theorem sum_set {α : Type} (f : α → ℕ) {l : List α} {i : ℕ} {a : α} (h : l[i]? = some a) (b : α) :
    ((l.set i b).map f).sum + f a = (l.map f).sum + f b := by
  obtain ⟨hi, rfl⟩ := List.getElem?_eq_some_iff.mp h
  have hset : ∀ c, ((l.set i c).map f).sum =
      ((l.map f).take i).sum + f c + ((l.map f).drop (i + 1)).sum := by
    intro c
    rw [List.map_set, List.sum_set, if_pos (by rwa [List.length_map])]
  have hself := hset l[i]
  rw [List.set_getElem_self] at hself
  rw [hset, hself]
  omega

end Schedule
