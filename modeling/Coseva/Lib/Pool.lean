/-
  A pool of workers that share a state.

  A step of the pool is a step of one worker, which may change what is shared.  What the worker
  happens to see there (a load that may be stale) is part of the action.

  * `step`, `step_cases`: the step of a pool, and what it can do;
  * `exists_mem_set`, `flatMap_set`: what some worker has ahead of it, and what all of them hold,
    where one has moved;
  * `measure`, `step_measure`: what is left to be shared out and the ranks of the workers bound
    what is ahead of a pool;
  * `keepLeast`, `foldl_keepLeast`: the failure that is kept of those that the workers meet.
-/
import Coseva.Lib.Schedule

namespace Pool

variable {σ W A : Type}

/-- The workers and what they share. -/
structure State (σ W : Type) where
  shared : σ
  workers : List W

/-- Who takes a step, and what it happens to see. -/
structure Action (A : Type) where
  worker : ℕ
  seen : A

/-- One step of one worker, if it can go on. -/
def step (advance : A → σ → W → Option (σ × W)) (s : State σ W) (a : Action A) :
    Option (State σ W) :=
  s.workers[a.worker]?.bind fun w =>
    (advance a.seen s.shared w).map fun next => ⟨next.1, s.workers.set a.worker next.2⟩

variable {advance : A → σ → W → Option (σ × W)} {s s' : State σ W} {a : Action A}

/-- What one step can do. -/
theorem step_cases (h : step advance s a = some s') :
    ∃ w shared w', s.workers[a.worker]? = some w ∧ advance a.seen s.shared w = some (shared, w') ∧
      s' = ⟨shared, s.workers.set a.worker w'⟩ := by
  obtain ⟨w, hw, h⟩ := Option.bind_eq_some_iff.mp h
  obtain ⟨⟨shared, w'⟩, hadvance, rfl⟩ := Option.map_eq_some_iff.mp h
  exact ⟨w, shared, w', hw, hadvance, rfl⟩

/-- A pool can go on while one of its workers can. -/
theorem exists_step {w : W} (hw : w ∈ s.workers) (seen : A)
    (hlive : advance seen s.shared w ≠ none) : ∃ a s', step advance s a = some s' := by
  obtain ⟨i, hi⟩ := List.mem_iff_getElem?.mp hw
  obtain ⟨next, hnext⟩ := Option.ne_none_iff_exists'.mp hlive
  refine ⟨⟨i, seen⟩, ⟨next.1, s.workers.set i next.2⟩, ?_⟩
  unfold step
  rw [hi, Option.bind_some, hnext]
  rfl

theorem run_workers {schedule : List (Action A)}
    (hrun : Schedule.run (step advance) schedule s = some s') :
    s'.workers.length = s.workers.length := by
  have hkeeps : Schedule.Keeps (step advance) fun t => t.workers.length = s.workers.length := by
    intro t t' a ht hstep
    obtain ⟨w, shared, w', -, -, rfl⟩ := step_cases hstep
    exact List.length_set.trans ht
  exact hkeeps.run rfl hrun

/-! ## What the workers are about -/

/-- A worker that is not the one that moves stays where it is. -/
theorem mem_set_of_ne {ws : List W} {i : ℕ} {w v : W} (hi : ws[i]? = some w) (hv : v ∈ ws)
    (hne : v ≠ w) (w' : W) : v ∈ ws.set i w' := by
  obtain ⟨j, hj⟩ := List.mem_iff_getElem?.mp hv
  refine List.mem_iff_getElem?.mpr ⟨j, (List.getElem?_set_ne ?_).trans hj⟩
  rintro rfl
  exact hne (Option.some.inj (hj.symm.trans hi))

theorem mem_set_self {ws : List W} {i : ℕ} {w : W} (hi : ws[i]? = some w) (w' : W) :
    w' ∈ ws.set i w' :=
  List.mem_iff_getElem?.mpr ⟨i, List.getElem?_set_self (List.getElem?_eq_some_iff.mp hi).1⟩

/-- What some worker has ahead of it, some worker has ahead of it once `w` has moved to `w'`. -/
theorem exists_mem_set {Q : W → Prop} {ws : List W} {i : ℕ} {w w' : W} (hi : ws[i]? = some w)
    (hmove : Q w → Q w' ∨ ∃ v ∈ ws, v ≠ w ∧ Q v) (h : ∃ v ∈ ws, Q v) : ∃ v ∈ ws.set i w', Q v := by
  obtain ⟨v, hv, hQ⟩ := h
  by_cases hvw : v = w
  · subst hvw
    rcases hmove hQ with hQ' | ⟨v', hv', hne, hQ'⟩
    · exact ⟨w', mem_set_self hi w', hQ'⟩
    · exact ⟨v', mem_set_of_ne hi hv' hne w', hQ'⟩
  · exact ⟨v, mem_set_of_ne hi hv hvw w', hQ⟩

/-- What the workers hold, where one of them is set apart. -/
theorem flatMap_set {B : Type} (f : W → List B) {ws : List W} {i : ℕ} {w : W} (hi : ws[i]? = some w) :
    ∃ rest, (ws.flatMap f).Perm (f w ++ rest) ∧ ∀ w', ((ws.set i w').flatMap f).Perm (f w' ++ rest) := by
  obtain ⟨hlt, rfl⟩ := List.getElem?_eq_some_iff.mp hi
  have hset : ∀ w', ((ws.set i w').flatMap f).Perm
      (f w' ++ ((ws.take i).flatMap f ++ (ws.drop (i + 1)).flatMap f)) := by
    intro w'
    rw [List.set_eq_take_append_cons_drop, if_pos hlt, List.flatMap_append, List.flatMap_cons,
      ← List.append_assoc, ← List.append_assoc]
    exact List.perm_append_comm.append_right _
  have hself := hset ws[i]
  rw [List.set_getElem_self] at hself
  exact ⟨_, hself, hset⟩

/-! ## Progress -/

/-- How far a pool is from its end: what is left to be shared out, and the ranks of the workers. -/
def measure (left : σ → ℕ) (rank : W → ℕ) (s : State σ W) : ℕ :=
  left s.shared + (s.workers.map rank).sum

/-- A step brings a pool nearer to its end by what it does to its worker and to what is shared. -/
theorem step_measure {left : σ → ℕ} {rank : W → ℕ}
    (hnearer : ∀ w shared w', w ∈ s.workers → advance a.seen s.shared w = some (shared, w') →
      left shared + rank w' < left s.shared + rank w)
    (h : step advance s a = some s') : measure left rank s' < measure left rank s := by
  obtain ⟨w, shared, w', hw, hadvance, rfl⟩ := step_cases h
  have hlt := hnearer w shared w' (List.mem_of_getElem? hw) hadvance
  have hsum := Schedule.sum_set rank hw w'
  unfold measure
  simp only
  omega

/-! ## Failures -/

/-- The failure that is kept of two: the first, unless the second is of a lower rank. -/
def keepLeast {E : Type} (rank : E → ℕ) : Option E → Option E → Option E
  | kept, none => kept
  | none, some found => some found
  | some kept, some found => if rank found < rank kept then some found else some kept

/-- **A failure of the lowest rank** is kept, if there is one. -/
theorem foldl_keepLeast {E : Type} (rank : E → ℕ) : ∀ (l : List (Option E)) (kept : Option E),
    match l.foldl (keepLeast rank) kept with
    | none => ∀ e, some e ∉ kept :: l
    | some least => some least ∈ kept :: l ∧ ∀ e, some e ∈ kept :: l → rank least ≤ rank e
  | [], none => by simp
  | [], some kept => by simp
  | found :: l, kept => by
    have hkeep : (keepLeast rank kept found = none → kept = none ∧ found = none) ∧
        ∀ e, keepLeast rank kept found = some e → (kept = some e ∨ found = some e) ∧
          (∀ e', kept = some e' → rank e ≤ rank e') ∧ ∀ e', found = some e' → rank e ≤ rank e' := by
      rcases kept with _ | kept <;> rcases found with _ | found <;> simp [keepLeast]
      split_ifs with hlt <;> simp <;> omega
    have ih := foldl_keepLeast rank l (keepLeast rank kept found)
    rw [List.foldl_cons]
    rcases hrest : l.foldl (keepLeast rank) (keepLeast rank kept found) with _ | least <;>
      rw [hrest] at ih
    · intro e he
      obtain ⟨rfl, rfl⟩ := hkeep.1 (by
        by_contra hne
        obtain ⟨e', he'⟩ := Option.ne_none_iff_exists'.mp hne
        exact ih e' (he' ▸ List.mem_cons_self))
      rcases List.mem_cons.mp he with he | he
      · cases he
      · exact ih e he
    · obtain ⟨hfrom, hleast⟩ := ih
      refine ⟨?_, fun e he => ?_⟩
      · rcases List.mem_cons.mp hfrom with hfrom | hfrom
        · rcases (hkeep.2 least hfrom.symm).1 with h | h <;> simp [h]
        · exact List.mem_cons_of_mem _ (List.mem_cons_of_mem _ hfrom)
      · rcases hk : keepLeast rank kept found with _ | e'
        · obtain ⟨rfl, rfl⟩ := hkeep.1 hk
          rcases List.mem_cons.mp he with he | he
          · cases he
          · exact hleast e (hk ▸ he)
        · obtain ⟨-, hkept, hfound⟩ := hkeep.2 e' hk
          have hle := hleast e' (hk ▸ List.mem_cons_self)
          rcases List.mem_cons.mp he with he | he
          · exact Nat.le_trans hle (hkept e he.symm)
          rcases List.mem_cons.mp he with he | he
          · exact Nat.le_trans hle (hfound e he.symm)
          · exact hleast e (List.mem_cons_of_mem _ he)

end Pool
