/-
  Runs of state computations that may fail (`EStateM`): one lemma for each step
  that a run takes, so that a run is rewritten step by step.

  * `bind_ok`, `bind_error`: the first part of a run;
  * `ok_of_bind`: a successful run is two successful runs;
  * `Ends`: what holds where a run ends;
  * `zoom`: a computation on a part of the state;
  * `Alike`: two computations that end alike from related states.
-/
import Mathlib.Tactic.Common

namespace Run

variable {ε σ α β : Type}

section steps

variable {x : EStateM ε σ α} {f : α → EStateM ε σ β} {s s' : σ}

theorem bind_ok {a : α} (h : x s = .ok a s') : (x >>= f) s = f a s' := by
  simp only [bind, EStateM.bind, h]

theorem bind_error {e : ε} (h : x s = .error e s') : (x >>= f) s = .error e s' := by
  simp only [bind, EStateM.bind, h]

theorem map_ok {g : α → β} {a : α} (h : x s = .ok a s') : (g <$> x) s = .ok (g a) s' := by
  simp only [Functor.map, EStateM.map, h]

theorem map_error {g : α → β} {e : ε} (h : x s = .error e s') :
    (g <$> x) s = .error e s' := by
  simp only [Functor.map, EStateM.map, h]

/-- A run that succeeds is a run of the first part and one of the second. -/
theorem ok_of_bind {b : β} {s'' : σ} (h : (x >>= f) s = .ok b s'') :
    ∃ a s', x s = .ok a s' ∧ f a s' = .ok b s'' := by
  rcases hx : x s with ⟨a, s'⟩ | ⟨e, s'⟩
  · rw [bind_ok hx] at h; exact ⟨a, s', rfl, h⟩
  · rw [bind_error hx] at h; cases h

end steps

@[simp] theorem pure_apply (a : α) (s : σ) : (pure a : EStateM ε σ α) s = .ok a s := rfl

@[simp] theorem throw_apply (e : ε) (s : σ) : (throw e : EStateM ε σ α) s = .error e s := rfl

@[simp] theorem get_bind (f : σ → EStateM ε σ β) (s : σ) : (get >>= f) s = f s s := rfl

@[simp] theorem set_bind (t : σ) (f : PUnit → EStateM ε σ β) (s : σ) :
    (set t >>= f) s = f ⟨⟩ t := rfl

@[simp] theorem modify_bind (g : σ → σ) (f : PUnit → EStateM ε σ β) (s : σ) :
    ((modify g : EStateM ε σ PUnit) >>= f) s = f ⟨⟩ (g s) := rfl

@[simp] theorem modify_apply (g : σ → σ) (s : σ) :
    (modify g : EStateM ε σ PUnit) s = .ok ⟨⟩ (g s) := rfl

@[simp] theorem set_apply (t s : σ) : (set t : EStateM ε σ PUnit) s = .ok ⟨⟩ t := rfl

@[simp] theorem pure_bind_apply (a : α) (f : α → EStateM ε σ β) (s : σ) :
    ((pure a : EStateM ε σ α) >>= f) s = f a s := rfl

/-! ## How a run ends -/

/-- `Q` holds where the run succeeds, and `E` where it fails. -/
def Ends (E : ε → σ → Prop) (Q : α → σ → Prop) : EStateM.Result ε σ α → Prop
  | .ok a s => Q a s
  | .error e s => E e s

namespace Ends

variable {E E' : ε → σ → Prop} {P Q : α → σ → Prop} {P' : β → σ → Prop}
  {x : EStateM ε σ α} {f : α → EStateM ε σ β} {s : σ}

theorem bind (hx : Ends E P (x s)) (hf : ∀ a s', P a s' → Ends E P' (f a s')) :
    Ends E P' ((x >>= f) s) := by
  rcases h : x s with ⟨a, s'⟩ | ⟨e, s'⟩
  · rw [h] at hx
    rw [bind_ok h]
    exact hf a s' hx
  · rw [h] at hx
    rw [bind_error h]
    exact hx

/-- Nothing follows a run that fails. -/
theorem fails (hx : Ends E (fun _ _ => False) (x s)) : Ends E P' ((x >>= f) s) :=
  hx.bind fun _ _ h => h.elim

/-- What follows may be exchanged on what the run may return. -/
theorem bind_eq {g : α → EStateM ε σ β} (hx : Ends E P (x s)) (hfg : ∀ a s', P a s' → f a s' = g a s') :
    (x >>= f) s = (x >>= g) s := by
  rcases h : x s with ⟨a, s'⟩ | ⟨e, s'⟩
  · rw [h] at hx
    rw [bind_ok h, bind_ok h]
    exact hfg a s' hx
  · rw [bind_error h, bind_error h]

theorem map {g : α → β} (hx : Ends E P (x s)) (hg : ∀ a s', P a s' → P' (g a) s') :
    Ends E P' ((g <$> x) s) := by
  rcases h : x s with ⟨a, s'⟩ | ⟨e, s'⟩
  · rw [h] at hx
    rw [map_ok h]
    exact hg a s' hx
  · rw [h] at hx
    rw [map_error h]
    exact hx

/-- Whatever a run does. -/
theorem somehow (r : EStateM.Result ε σ α) : Ends (fun _ _ => True) (fun _ _ => True) r := by
  cases r with
  | ok a s => trivial
  | error e s => trivial

/-- A run ends as it does. -/
theorem itself (r : EStateM.Result ε σ α) :
    Ends (fun e s => r = .error e s) (fun a s => r = .ok a s) r := by
  cases r with
  | ok a s => exact rfl
  | error e s => exact rfl

theorem mono {r : EStateM.Result ε σ α} (h : Ends E P r) (hE : ∀ e s, E e s → E' e s)
    (hP : ∀ a s, P a s → Q a s) : Ends E' Q r := by
  cases r with
  | ok a s => exact hP a s h
  | error e s => exact hE e s h

theorem ite {c : Prop} [Decidable c] {r r' : EStateM.Result ε σ α} (h : Ends E P r)
    (h' : Ends E P r') : Ends E P (if c then r else r') := by
  split_ifs
  · exact h
  · exact h'

theorem and {r : EStateM.Result ε σ α} (h : Ends E P r) (h' : Ends E' Q r) :
    Ends (fun e s => E e s ∧ E' e s) (fun a s => P a s ∧ Q a s) r := by
  cases r with
  | ok a s => exact ⟨h, h'⟩
  | error e s => exact ⟨h, h'⟩

end Ends

/-! ## A part of the state -/

/-- A computation on a part of the state, whose faults are those of the whole. -/
def zoom {τ ε' : Type} (get : σ → τ) (put : σ → τ → σ) (wrap : ε → ε') (x : EStateM ε τ α) :
    EStateM ε' σ α := fun s =>
  match x (get s) with
  | .ok a t => .ok a (put s t)
  | .error e t => .error (wrap e) (put s t)

theorem Ends.zoom {τ ε' : Type} {get : σ → τ} {put : σ → τ → σ} {wrap : ε → ε'}
    {x : EStateM ε τ α} {s : σ} {E : ε' → σ → Prop} {Q : α → σ → Prop}
    (h : Ends (fun e t => E (wrap e) (put s t)) (fun a t => Q a (put s t)) (x (get s))) :
    Ends E Q (Run.zoom get put wrap x s) := by
  unfold Run.zoom
  rcases hrun : x (get s) with ⟨a, t⟩ | ⟨e, t⟩
  · rw [hrun] at h
    exact h
  · rw [hrun] at h
    exact h

theorem ok_of_zoom {τ ε' : Type} {get : σ → τ} {put : σ → τ → σ} {wrap : ε → ε'}
    {x : EStateM ε τ α} {a : α} {s s' : σ} (h : zoom get put wrap x s = .ok a s') :
    ∃ t, x (get s) = .ok a t ∧ put s t = s' := by
  unfold zoom at h
  rcases hrun : x (get s) with ⟨b, t⟩ | ⟨e, t⟩ <;> rw [hrun] at h <;> cases h
  exact ⟨t, rfl, rfl⟩

/-! ## Two runs that end alike -/

/-- Both runs succeed with one result, or fail in related ways. -/
def Related (R : σ → σ → Prop) (E : ε → ε → Prop) :
    EStateM.Result ε σ α → EStateM.Result ε σ α → Prop
  | .ok a s, .ok b t => a = b ∧ R s t
  | .error e _, .error f _ => E e f
  | _, _ => False

/-- What follows two runs that end alike, behind a result of the first. -/
theorem Related.bind {R S : σ → σ → Prop} {E : ε → ε → Prop} {x y : EStateM ε σ α}
    {f g : α → EStateM ε σ β} {s t : σ} (h : Related R E (x s) (y t))
    (hf : ∀ a s' t', x s = .ok a s' → R s' t' → Related S E (f a s') (g a t')) :
    Related S E ((x >>= f) s) ((y >>= g) t) := by
  rcases hs : x s with ⟨a, s'⟩ | ⟨e, s'⟩ <;> rcases ht : y t with ⟨b, t'⟩ | ⟨e', t'⟩ <;>
    rw [hs, ht] at h
  · obtain ⟨rfl, hR⟩ := h
    rw [bind_ok hs, bind_ok ht]
    exact hf a s' t' hs hR
  · exact h.elim
  · exact h.elim
  · rw [bind_error hs, bind_error ht]
    exact h

/-- The same, behind what is known of where the first run ends. -/
theorem Related.bind_ends {R S : σ → σ → Prop} {E : ε → ε → Prop} {E' : ε → σ → Prop}
    {P : α → σ → Prop} {x y : EStateM ε σ α} {f g : α → EStateM ε σ β} {s t : σ}
    (h : Related R E (x s) (y t)) (hx : Ends E' P (x s))
    (hf : ∀ a s' t', P a s' → R s' t' → Related S E (f a s') (g a t')) :
    Related S E ((x >>= f) s) ((y >>= g) t) :=
  h.bind fun a s' t' hs hR => hf a s' t' (by rw [hs] at hx; exact hx) hR

theorem Related.mono {R S : σ → σ → Prop} {E : ε → ε → Prop} {r r' : EStateM.Result ε σ α}
    (h : Related R E r r') (hR : ∀ s t, R s t → S s t) : Related S E r r' := by
  cases r <;> cases r'
  · exact ⟨h.1, hR _ _ h.2⟩
  · exact h.elim
  · exact h.elim
  · exact h

/-- From related states the runs of `x` and `y` end alike. -/
def Alike (R : σ → σ → Prop) (E : ε → ε → Prop) (x y : EStateM ε σ α) : Prop :=
  ∀ s t, R s t → Related R E (x s) (y t)

namespace Alike

variable {R : σ → σ → Prop} {E : ε → ε → Prop} {x y : EStateM ε σ α} {f g : α → EStateM ε σ β}

theorem pure' (a : α) : Alike R E (pure a : EStateM ε σ α) (pure a) := fun _ _ h => ⟨rfl, h⟩

theorem throw' {e e' : ε} (h : E e e') : Alike R E (throw e : EStateM ε σ α) (throw e') :=
  fun _ _ _ => h

theorem modify' {k l : σ → σ} (h : ∀ s t, R s t → R (k s) (l t)) :
    Alike R E (modify k : EStateM ε σ PUnit) (modify l) := fun s t hR => ⟨rfl, h s t hR⟩

theorem bind (hx : Alike R E x y) (hf : ∀ a, Alike R E (f a) (g a)) :
    Alike R E (x >>= f) (y >>= g) := by
  intro s t h
  have hr := hx s t h
  rcases hs : x s with ⟨a, s'⟩ | ⟨e, s'⟩ <;> rcases ht : y t with ⟨b, t'⟩ | ⟨e', t'⟩ <;>
    rw [hs, ht] at hr
  · obtain ⟨rfl, hR⟩ := hr
    rw [bind_ok hs, bind_ok ht]
    exact hf a s' t' hR
  · exact hr.elim
  · exact hr.elim
  · rw [bind_error hs, bind_error ht]
    exact hr

/-- Both runs read their state first. -/
theorem get_bind {f g : σ → EStateM ε σ β}
    (h : ∀ s t, R s t → Related R E (f s s) (g t t)) : Alike R E (get >>= f) (get >>= g) := h

end Alike

end Run
