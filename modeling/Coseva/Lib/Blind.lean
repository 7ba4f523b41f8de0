/-
  Computations that leave a part of their state alone, or as good as it was.

  * `Blind`: a part of the state is neither read nor changed;
  * `Maintains`: an invariant of the state is kept, and what the value is like;
  * `Matched`: two runs that end alike, in values and states that are related.
-/
import Coseva.Lib.Run

namespace Run

variable {ε σ α β γ δ : Type}

/-- A result, with its state changed. -/
def mapState (k : σ → σ) : EStateM.Result ε σ α → EStateM.Result ε σ α
  | .ok a s => .ok a (k s)
  | .error e s => .error e (k s)

/-- What `k` changes of a state is neither read nor changed. -/
def Blind (k : σ → σ) (x : EStateM ε σ α) : Prop := ∀ s, x (k s) = mapState k (x s)

namespace Blind

variable {k : σ → σ} {x : EStateM ε σ α} {f : α → EStateM ε σ β}

theorem pure' (a : α) : Blind k (pure a : EStateM ε σ α) := fun _ => rfl

theorem throw' (e : ε) : Blind k (throw e : EStateM ε σ α) := fun _ => rfl

theorem modify' {g : σ → σ} (h : ∀ s, g (k s) = k (g s)) :
    Blind k (modify g : EStateM ε σ PUnit) := by
  intro s
  show EStateM.Result.ok PUnit.unit (g (k s)) = .ok PUnit.unit (k (g s))
  rw [h]

theorem bind (hx : Blind k x) (hf : ∀ a, Blind k (f a)) : Blind k (x >>= f) := by
  intro s
  have hs := hx s
  rcases hrun : x s with ⟨a, s'⟩ | ⟨e, s'⟩ <;> rw [hrun] at hs
  · rw [bind_ok hs, bind_ok hrun]
    exact hf a s'
  · rw [bind_error hs, bind_error hrun]
    rfl

/-- A computation that reads other parts of the state first. -/
theorem get_bind {g : σ → EStateM ε σ α} (hread : ∀ s, g (k s) = g s) (hg : ∀ s, Blind k (g s)) :
    Blind k (get >>= g) := by
  intro s
  rw [Run.get_bind, Run.get_bind, hread]
  exact hg s s

theorem ite {c : Prop} [Decidable c] {y : EStateM ε σ α} (hx : Blind k x) (hy : Blind k y) :
    Blind k (if c then x else y) := by
  split_ifs
  · exact hx
  · exact hy

end Blind

/-- A run from a state with the invariant ends in one, and with such a value where it succeeds. -/
def Maintains (I : σ → Prop) (P : α → Prop) (x : EStateM ε σ α) : Prop :=
  ∀ s, I s → Ends (fun _ => I) (fun a s' => I s' ∧ P a) (x s)

namespace Maintains

variable {I : σ → Prop} {P Q : α → Prop} {R : β → Prop} {x y : EStateM ε σ α} {f : α → EStateM ε σ β}

theorem pure' {a : α} (h : P a) : Maintains I P (pure a : EStateM ε σ α) := fun _ hs => ⟨hs, h⟩

theorem throw' (e : ε) : Maintains I P (throw e : EStateM ε σ α) := fun _ hs => hs

theorem modify' {g : σ → σ} {P : PUnit → Prop} (h : ∀ s, I s → I (g s)) (hP : P ⟨⟩) :
    Maintains I P (modify g : EStateM ε σ PUnit) := fun s hs => ⟨h s hs, hP⟩

theorem bind (hx : Maintains I P x) (hf : ∀ a, P a → Maintains I R (f a)) :
    Maintains I R (x >>= f) := fun s hs => (hx s hs).bind fun a s' h => hf a h.2 s' h.1

theorem get_bind {g : σ → EStateM ε σ α} (hg : ∀ s, I s → Maintains I P (g s)) :
    Maintains I P (get >>= g) := fun s hs => hg s hs s hs

theorem set' {t : σ} {P : PUnit → Prop} (ht : I t) (hP : P ⟨⟩) :
    Maintains I P (set t : EStateM ε σ PUnit) := fun _ _ => ⟨ht, hP⟩

theorem map {k : α → β} (hx : Maintains I P x) (hk : ∀ a, P a → R (k a)) :
    Maintains I R (k <$> x) := fun s hs => (hx s hs).map fun a _ h => ⟨h.1, hk a h.2⟩

theorem ite {c : Prop} [Decidable c] (hx : Maintains I P x) (hy : Maintains I P y) :
    Maintains I P (if c then x else y) := by
  split_ifs
  · exact hx
  · exact hy

theorem mono (h : Maintains I P x) (hP : ∀ a, P a → Q a) : Maintains I Q x :=
  fun s hs => (h s hs).mono (fun _ _ hI => hI) fun a _ h => ⟨h.1, hP a h.2⟩

end Maintains

/-! ## Two runs -/

/-- Both runs succeed with related values, or fail alike, in related states. -/
def Matched (P : α → β → Prop) (R : σ → σ → Prop) :
    EStateM.Result ε σ α → EStateM.Result ε σ β → Prop
  | .ok a s, .ok b t => P a b ∧ R s t
  | .error e s, .error f t => e = f ∧ R s t
  | _, _ => False

namespace Matched

variable {P : α → β → Prop} {Q : γ → δ → Prop} {R : σ → σ → Prop}

theorem refl' {P : α → α → Prop} (hR : ∀ s, R s s) {r : EStateM.Result ε σ α}
    (hP : ∀ a s, r = .ok a s → P a a) : Matched P R r r := by
  cases r with
  | ok a s => exact ⟨hP a s rfl, hR s⟩
  | error e s => exact ⟨rfl, hR s⟩

theorem bind {x : EStateM ε σ α} {y : EStateM ε σ β} {f : α → EStateM ε σ γ} {g : β → EStateM ε σ δ}
    {s t : σ} (h : Matched P R (x s) (y t))
    (hf : ∀ a b s' t', x s = .ok a s' → P a b → R s' t' → Matched Q R (f a s') (g b t')) :
    Matched Q R ((x >>= f) s) ((y >>= g) t) := by
  rcases hs : x s with ⟨a, s'⟩ | ⟨e, s'⟩ <;> rcases ht : y t with ⟨b, t'⟩ | ⟨e', t'⟩ <;>
    rw [hs, ht] at h
  · rw [bind_ok hs, bind_ok ht]
    exact hf a b s' t' hs h.1 h.2
  · exact h.elim
  · exact h.elim
  · rw [bind_error hs, bind_error ht]
    exact h

theorem mono {P' : α → β → Prop} {R' : σ → σ → Prop} {r : EStateM.Result ε σ α}
    {r' : EStateM.Result ε σ β} (h : Matched P R r r') (hP : ∀ a b s, r = .ok a s → P a b → P' a b)
    (hR : ∀ s t, R s t → R' s t) : Matched P' R' r r' := by
  cases r <;> cases r'
  · exact ⟨hP _ _ _ rfl h.1, hR _ _ h.2⟩
  · exact h.elim
  · exact h.elim
  · exact ⟨h.1, hR _ _ h.2⟩

end Matched

/-- A blind computation, wherever that part of its state stands. -/
theorem Blind.matched {k : σ → σ} {x : EStateM ε σ α} {R : σ → σ → Prop} (h : Blind k x)
    (hR : ∀ s, R (k s) s) (s : σ) : Matched Eq R (x (k s)) (x s) := by
  rw [h s]
  cases x s with
  | ok a s => exact ⟨rfl, hR s⟩
  | error e s => exact ⟨rfl, hR s⟩

end Run
