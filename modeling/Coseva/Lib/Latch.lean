/-
  Calls made one behind the other on one state, of which some fail, and a latch of the state that a
  failure sets.

  * `answers`: what the calls answer;
  * `Meets`: each call is made where it may be made;
  * `Latch`: some faults set the latch, and behind it a call that reads fails;
  * `Latch.silent`: **behind a fault that sets the latch no call that reads succeeds**;
  * `Latches`: an invariant that a computation keeps, and what holds where it fails.
-/
import Coseva.Lib.Run
import Mathlib.Data.List.Basic

namespace Run

variable {κ ε σ α : Type} (apply : κ → EStateM ε σ α)

/-- The answers of calls one behind the other, also behind calls that fail. -/
def answers : List κ → σ → List (Except ε α)
  | [], _ => []
  | call :: calls, s =>
    match apply call s with
    | .ok answer s => .ok answer :: answers calls s
    | .error fault s => .error fault :: answers calls s

/-- Every call is made in a state in which `A` allows it. -/
def Meets (A : κ → σ → Prop) : List κ → σ → Prop
  | [], _ => True
  | call :: calls, s =>
    A call s ∧
      match apply call s with
      | .ok _ s => Meets A calls s
      | .error _ s => Meets A calls s

instance decidableMeets {A : κ → σ → Prop} [∀ call s, Decidable (A call s)] :
    (calls : List κ) → (s : σ) → Decidable (Meets apply A calls s)
  | [], _ => .isTrue trivial
  | call :: calls, s =>
    have : Decidable (match apply call s with
        | .ok _ s => Meets apply A calls s
        | .error _ s => Meets apply A calls s) :=
      match apply call s with
      | .ok _ s => decidableMeets calls s
      | .error _ s => decidableMeets calls s
    inferInstanceAs (Decidable (_ ∧ _))

/-- Behind a fault that poisons, each call that reads fails with a fault that refuses. -/
def Silent (reads : κ → Bool) (poisons refuses : ε → Bool) (calls : List κ) (s : σ) : Prop :=
  (calls.zip (answers apply calls s)).Pairwise fun earlier later =>
    (∃ fault, earlier.2 = .error fault ∧ poisons fault = true) → reads later.1 = true →
      ∃ fault, later.2 = .error fault ∧ refuses fault = true

/-- `L` is a latch of the calls that `A` allows, under the invariant `I`: a fault that poisons sets
    it, no call takes it back, and a call that reads fails where it is set. -/
structure Latch (A : κ → σ → Prop) (reads : κ → Bool) (poisons refuses : ε → Bool)
    (I L : σ → Prop) : Prop where
  sets : ∀ call s, A call s → I s →
    Ends (fun fault s' => I s' ∧ (poisons fault = true → L s')) (fun _ s' => I s') (apply call s)
  stays : ∀ call s, A call s → I s → L s →
    Ends (fun fault s' => L s' ∧ (reads call = true → refuses fault = true))
      (fun _ s' => L s' ∧ reads call = false) (apply call s)

namespace Latch

variable {apply} {A : κ → σ → Prop} {reads : κ → Bool} {poisons refuses : ε → Bool}
  {I L : σ → Prop}

/-- Where the latch is set, all calls that read fail. -/
theorem refused (h : Latch apply A reads poisons refuses I L) (calls : List κ) :
    ∀ s, Meets apply A calls s → I s → L s →
      ∀ later ∈ calls.zip (answers apply calls s), reads later.1 = true →
        ∃ fault, later.2 = .error fault ∧ refuses fault = true := by
  induction calls with
  | nil => exact fun _ _ _ _ _ hmem => absurd hmem List.not_mem_nil
  | cons call calls ih =>
    rintro s ⟨hallowed, hmeets⟩ hI hL later hmem hreads
    have hsets := h.sets call s hallowed hI
    have hstays := h.stays call s hallowed hI hL
    rw [answers] at hmem
    rcases hrun : apply call s with ⟨answer, s'⟩ | ⟨fault, s'⟩ <;>
      rw [hrun] at hmeets hsets hstays hmem <;> rw [List.zip_cons_cons, List.mem_cons] at hmem
    · rcases hmem with rfl | hmem
      · rw [hstays.2] at hreads
        cases hreads
      · exact ih s' hmeets hsets hstays.1 later hmem hreads
    · rcases hmem with rfl | hmem
      · exact ⟨fault, rfl, hstays.2 hreads⟩
      · exact ih s' hmeets hsets.1 hstays.1 later hmem hreads

/-- **Behind a fault that sets the latch no call that reads succeeds.** -/
theorem silent (h : Latch apply A reads poisons refuses I L) (calls : List κ) :
    ∀ s, Meets apply A calls s → I s → Silent apply reads poisons refuses calls s := by
  unfold Silent
  induction calls with
  | nil => exact fun _ _ _ => List.Pairwise.nil
  | cons call calls ih =>
    rintro s ⟨hallowed, hmeets⟩ hI
    have hsets := h.sets call s hallowed hI
    rw [answers]
    rcases hrun : apply call s with ⟨answer, s'⟩ | ⟨fault, s'⟩ <;>
      rw [hrun] at hmeets hsets <;> rw [List.zip_cons_cons, List.pairwise_cons]
    · refine ⟨?_, ih s' hmeets hsets⟩
      rintro later - ⟨fault, hfault, -⟩
      cases hfault
    · refine ⟨?_, ih s' hmeets hsets.1⟩
      rintro later hmem ⟨_, hfault, hpoisons⟩ hreads
      cases hfault
      exact h.refused calls s' hmeets hsets.1 (hsets.2 hpoisons) later hmem hreads

end Latch

/-- A call that fails, whether it reads or not. -/
theorem Ends.stays {L : σ → Prop} {E : ε → Prop} {refuses : ε → Bool} {reads : Bool}
    {r : EStateM.Result ε σ α} (h : Ends (fun fault s => L s ∧ E fault) (fun _ _ => False) r)
    (hE : ∀ fault, E fault → refuses fault = true) :
    Ends (fun fault s => L s ∧ (reads = true → refuses fault = true))
      (fun _ s => L s ∧ reads = false) r :=
  h.mono (fun fault _ h' => ⟨h'.1, fun _ => hE fault h'.2⟩) fun _ _ h' => h'.elim

/-! ## What a call latches -/

/-- From the states of `I` a computation keeps `I`, and `E` holds besides where it fails. -/
def Latches (I : σ → Prop) (E : ε → σ → Prop) (x : EStateM ε σ α) : Prop :=
  ∀ s, I s → Ends (fun fault s' => I s' ∧ E fault s') (fun _ s' => I s') (x s)

namespace Latches

variable {I : σ → Prop} {E : ε → σ → Prop} {β : Type} {x : EStateM ε σ α}

theorem pure' (a : α) : Latches I E (pure a : EStateM ε σ α) := fun _ h => h

theorem throw' {fault : ε} (h : ∀ s, I s → E fault s) :
    Latches I E (throw fault : EStateM ε σ α) := fun s hI => ⟨hI, h s hI⟩

theorem modify' {f : σ → σ} (h : ∀ s, I s → I (f s)) :
    Latches I E (modify f : EStateM ε σ PUnit) := fun s hI => h s hI

theorem bind {f : α → EStateM ε σ β} (hx : Latches I E x) (hf : ∀ a, Latches I E (f a)) :
    Latches I E (x >>= f) := fun s hI => (hx s hI).bind fun a s' h => hf a s' h

theorem map {g : α → β} (hx : Latches I E x) : Latches I E (g <$> x) :=
  fun s hI => (hx s hI).map fun _ _ h => h

theorem get_bind {f : σ → EStateM ε σ β} (h : ∀ t, I t → Latches I E (f t)) :
    Latches I E (get >>= f) := fun s hI => h s hI s hI

theorem ite {c : Prop} [Decidable c] {y : EStateM ε σ α} (hx : Latches I E x)
    (hy : Latches I E y) : Latches I E (if c then x else y) := by
  split_ifs
  · exact hx
  · exact hy

/-- A computation on a part of the state. -/
theorem zoom {τ ε' : Type} {get : σ → τ} {put : σ → τ → σ} {wrap : ε' → ε} {x : EStateM ε' τ α}
    (h : ∀ s, I s → Ends (fun fault t => I (put s t) ∧ E (wrap fault) (put s t))
      (fun _ t => I (put s t)) (x (get s))) : Latches I E (Run.zoom get put wrap x) :=
  fun s hI => (h s hI).zoom

end Latches

end Run
