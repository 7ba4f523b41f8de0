/-
  Packing a list into groups in its order: an element opens a new group when the
  open group would be too large with it.

  * `pack`: the groups, under any test of what is too large;
  * `Packing`: what a packing is for: the groups are the list, none is empty, one
    that is too large has a single element, and a group is closed only for an
    element with which it would be too large;
  * `pack_packing`: `pack` is one.
-/
import Mathlib.Data.List.Chain
import Mathlib.Tactic.Common

namespace Pack

variable {α : Type*}

/-- The groups of a list behind an open group. -/
def packFrom (full : List α → Bool) : List α → List α → List (List α)
  | group, [] => [group]
  | group, a :: l =>
    if !group.isEmpty && full (group ++ [a]) then group :: packFrom full [a] l
    else packFrom full (group ++ [a]) l

theorem packFrom_nil (full : List α → Bool) (group : List α) : packFrom full group [] = [group] :=
  rfl

theorem packFrom_cons (full : List α → Bool) (group : List α) (a : α) (l : List α) :
    packFrom full group (a :: l) =
      if !group.isEmpty && full (group ++ [a]) then group :: packFrom full [a] l
      else packFrom full (group ++ [a]) l := rfl

/-- The groups of a list. -/
def pack (full : List α → Bool) (l : List α) : List (List α) := packFrom full [] l

/-- The groups are a packing of the list. -/
structure Packing (full : List α → Bool) (l : List α) (groups : List (List α)) : Prop where
  joined : groups.flatten = l
  empty : l = [] → groups = [[]]
  nonempty : l ≠ [] → [] ∉ groups
  alone : ∀ g ∈ groups, full g = true → g.length ≤ 1
  tight : groups.IsChain fun a b => ∃ r rest, b = r :: rest ∧ full (a ++ [r]) = true

variable {full : List α → Bool}

variable (full) in
/-- The open group stays at the front. -/
theorem packFrom_head (group l : List α) :
    ∃ more rest, packFrom full group l = (group ++ more) :: rest := by
  induction l generalizing group with
  | nil => exact ⟨[], [], by rw [packFrom_nil, List.append_nil]⟩
  | cons a l ih =>
    rw [packFrom_cons]
    split_ifs
    · exact ⟨[], _, by rw [List.append_nil]⟩
    · obtain ⟨more, rest, h⟩ := ih (group ++ [a])
      exact ⟨a :: more, rest, by rw [h, List.append_assoc, List.singleton_append]⟩

theorem flatten_packFrom (group l : List α) : (packFrom full group l).flatten = group ++ l := by
  induction l generalizing group with
  | nil => simp [packFrom_nil]
  | cons a l ih =>
    rw [packFrom_cons]
    split_ifs
    · rw [List.flatten_cons, ih, List.singleton_append]
    · rw [ih, List.append_assoc, List.singleton_append]

theorem packFrom_nonempty (group l : List α) (h : group ≠ [] ∨ l ≠ []) :
    [] ∉ packFrom full group l := by
  induction l generalizing group with
  | nil => simpa [packFrom_nil, eq_comm] using h
  | cons a l ih =>
    rw [packFrom_cons]
    split_ifs with hfull
    · rw [List.mem_cons, not_or]
      refine ⟨fun heq => ?_, ih [a] (Or.inl (List.cons_ne_nil a []))⟩
      rw [← heq] at hfull
      exact Bool.noConfusion hfull
    · exact ih (group ++ [a]) (Or.inl (by simp))

/-- A group that is too large has a single element. -/
theorem packFrom_alone (group l : List α) (h : full group = true → group.length ≤ 1) :
    ∀ g ∈ packFrom full group l, full g = true → g.length ≤ 1 := by
  induction l generalizing group with
  | nil =>
    intro g hg
    rw [packFrom_nil, List.mem_singleton] at hg
    exact hg ▸ h
  | cons a l ih =>
    rw [packFrom_cons]
    split_ifs with hfull
    · intro g hg
      rcases List.mem_cons.1 hg with rfl | hg
      · exact h
      · exact ih [a] (fun _ => le_rfl) g hg
    · refine ih (group ++ [a]) fun hlarge => ?_
      cases group with
      | nil => exact le_rfl
      | cons b group => exact absurd hlarge (by simpa using hfull)

/-- A group is closed only for an element with which it would be too large. -/
theorem packFrom_tight (group l : List α) :
    (packFrom full group l).IsChain fun a b => ∃ r rest, b = r :: rest ∧ full (a ++ [r]) = true := by
  induction l generalizing group with
  | nil => exact List.isChain_singleton _
  | cons a l ih =>
    rw [packFrom_cons]
    split_ifs with hfull
    · obtain ⟨more, rest, hhead⟩ := packFrom_head full [a] l
      have htail := ih [a]
      rw [hhead] at htail ⊢
      refine List.IsChain.cons_cons ⟨a, more, rfl, ?_⟩ htail
      rw [Bool.and_eq_true] at hfull
      exact hfull.2
    · exact ih (group ++ [a])

/-- **Packing**: the groups that are opened one after another are a packing. -/
theorem pack_packing (full : List α → Bool) (l : List α) : Packing full l (pack full l) where
  joined := flatten_packFrom [] l
  empty h := by subst h; rfl
  nonempty h := packFrom_nonempty [] l (Or.inr h)
  alone := packFrom_alone [] l fun _ => Nat.zero_le 1
  tight := packFrom_tight [] l

end Pack
