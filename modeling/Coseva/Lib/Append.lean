/-
  Computations that only append to a buffer.

  A computation over a growing buffer may fail, and then keeps the buffer as it
  was at the failure.  `Appends m r bs` says that, on every buffer, `m` ends in
  the result `r` and has appended exactly `bs`; such computations compose along
  `++`, so the results above never look at the buffer again.

  * `Appends.bind_ok`, `Appends.bind_error`: the rules for sequencing;
  * `Writes m r`: `m` ends in the value of `r` having appended its elements, or
    in the error of `r`, whatever it had appended before;
  * `substLoop`: the loop that copies a list, replacing each element a search
    finds, and `substLoop_appends`, what it appends.
-/
import Mathlib.Data.List.Basic
import Mathlib.Tactic.Common

namespace Append

universe u v
variable {α β : Type u} {ε A : Type v}

/-- A fallible computation over a buffer of `A`, which survives a failure. -/
abbrev M (A ε : Type v) (α : Type u) := List A → Except ε α × List A

/-- `m` ends in `r` and appends `bs`, on every buffer. -/
def Appends (m : M A ε α) (r : Except ε α) (bs : List A) : Prop :=
  ∀ out, m out = (r, out ++ bs)

namespace M

protected def pure (a : α) : M A ε α := fun out => (.ok a, out)

def throw (e : ε) : M A ε α := fun out => (.error e, out)

protected def bind (m : M A ε α) (f : α → M A ε β) : M A ε β := fun out =>
  match m out with
  | (.ok a, out') => f a out'
  | (.error e, out') => (.error e, out')

instance : Monad (M A ε) where
  pure := M.pure
  bind := M.bind

/-- Append one element. -/
def push (a : A) : M A ε Unit := fun out => (.ok (), out ++ [a])

/-- Append several elements. -/
def extend (as : List A) : M A ε Unit := fun out => (.ok (), out ++ as)

/-- Run `m` only if `c` holds. -/
def onlyIf (c : Prop) [Decidable c] (m : M A ε Unit) : M A ε Unit := if c then m else M.pure ()

/-- On an error of `m`, cut the buffer back to its length before `m`. -/
def rollback (m : M A ε α) : M A ε α := fun out =>
  match m out with
  | (.ok a, out') => (.ok a, out')
  | (.error e, out') => (.error e, out'.take out.length)

/-- Run `m` and tell whether the buffer is as long as before. -/
def watch (m : M A ε α) : M A ε (α × Bool) := fun out =>
  match m out with
  | (.ok a, out') => (.ok (a, out'.length == out.length), out')
  | (.error e, out') => (.error e, out')

end M

open M

/-! ## Rules -/

theorem appends_pure (a : α) : Appends (Pure.pure a : M A ε α) (.ok a) [] :=
  fun out => by simp [Pure.pure, M.pure]

theorem appends_throw (e : ε) : Appends (M.throw e : M A ε α) (.error e) [] :=
  fun out => by simp [M.throw]

theorem appends_push (a : A) : Appends (push a : M A ε Unit) (.ok ()) [a] := fun _ => rfl

theorem appends_extend (as : List A) : Appends (extend as : M A ε Unit) (.ok ()) as := fun _ => rfl

theorem appends_onlyIf {c : Prop} [Decidable c] {m : M A ε Unit} {bs : List A}
    (hm : Appends m (.ok ()) bs) :
    Appends (onlyIf c m) (.ok ()) (if c then bs else []) := by
  unfold onlyIf; split
  · exact hm
  · exact appends_pure ()

theorem onlyIf_congr {c c' : Prop} [Decidable c] [Decidable c'] (h : c ↔ c') (m : M A ε Unit) :
    onlyIf c m = onlyIf c' m := by
  by_cases hc : c
  · rw [onlyIf, onlyIf, if_pos hc, if_pos (h.mp hc)]
  · rw [onlyIf, onlyIf, if_neg hc, if_neg (hc ∘ h.mpr)]

theorem Appends.bind_ok {m : M A ε α} {f : α → M A ε β} {a : α} {r : Except ε β} {bs cs : List A}
    (hm : Appends m (.ok a) bs) (hf : Appends (f a) r cs) : Appends (m >>= f) r (bs ++ cs) := by
  intro out
  show M.bind m f out = _
  rw [M.bind, hm out]
  simp only [hf (out ++ bs), List.append_assoc]

theorem Appends.bind_error {m : M A ε α} {f : α → M A ε β} {e : ε} {bs : List A}
    (hm : Appends m (.error e) bs) : Appends (m >>= f) (.error e) bs := by
  intro out
  show M.bind m f out = _
  rw [M.bind, hm out]

theorem Appends.congr {m : M A ε α} {r r' : Except ε α} {bs cs : List A} (hm : Appends m r bs)
    (hr : r = r') (hbs : bs = cs) : Appends m r' cs := hr ▸ hbs ▸ hm

/-- A computation that appends is determined by its result and its bytes. -/
theorem Appends.ext {m m' : M A ε α} {r : Except ε α} {bs : List A} (hm : Appends m r bs)
    (hm' : Appends m' r bs) : m = m' := by
  funext out; rw [hm out, hm' out]

theorem Appends.rollback_ok {m : M A ε α} {a : α} {bs : List A} (hm : Appends m (.ok a) bs) :
    Appends (rollback m) (.ok a) bs := by
  intro out; rw [rollback, hm out]

theorem Appends.rollback_error {m : M A ε α} {e : ε} {bs : List A} (hm : Appends m (.error e) bs) :
    Appends (rollback m) (.error e) [] := by
  intro out; rw [rollback, hm out]; simp

theorem Appends.watch_ok {m : M A ε α} {a : α} {bs : List A} (hm : Appends m (.ok a) bs) :
    Appends (watch m) (.ok (a, bs.isEmpty)) bs := by
  intro out; rw [watch, hm out]
  cases bs <;> simp

theorem Appends.watch_error {m : M A ε α} {e : ε} {bs : List A} (hm : Appends m (.error e) bs) :
    Appends (watch m) (.error e) bs := by
  intro out; rw [watch, hm out]

/-! ## What a computation writes -/

/-- `m` ends in the value of `r` and appends its elements, or in the error of
    `r`, having appended something. -/
def Writes (m : M A ε α) : Except ε (α × List A) → Prop
  | .ok (a, bs) => Appends m (.ok a) bs
  | .error e => ∃ bs, Appends m (.error e) bs

/-- `m` appends the same elements and ends the same way on every buffer. -/
def Local (m : M A ε α) : Prop := ∃ r bs, Appends m r bs

theorem Writes.isLocal {m : M A ε α} {r : Except ε (α × List A)} (hm : Writes m r) : Local m := by
  match r, hm with
  | .error e, ⟨bs, h⟩ => exact ⟨.error e, bs, h⟩
  | .ok (a, bs), h => exact ⟨.ok a, bs, h⟩

/-- On a longer buffer, a local computation does the same behind it. -/
theorem Local.shift {m : M A ε α} (hm : Local m) (pre out : List A) :
    m (pre ++ out) = ((m out).1, pre ++ (m out).2) := by
  obtain ⟨r, bs, h⟩ := hm
  rw [h, h, List.append_assoc]

theorem Local.bind {m : M A ε α} {f : α → M A ε β} (hm : Local m) (hf : ∀ a, Local (f a)) :
    Local (m >>= f) := by
  obtain ⟨r, bs, h⟩ := hm
  cases r with
  | error e => exact ⟨_, _, h.bind_error⟩
  | ok a => obtain ⟨r', cs, h'⟩ := hf a; exact ⟨_, _, h.bind_ok h'⟩

theorem Appends.isLocal {m : M A ε α} {r : Except ε α} {bs : List A} (hm : Appends m r bs) :
    Local m := ⟨r, bs, hm⟩

/-- A computation that does the same behind every buffer is local. -/
theorem local_of_shift {m : M A ε α} (h : ∀ out, m out = ((m []).1, out ++ (m []).2)) : Local m :=
  ⟨_, _, h⟩

/-- What a sequence writes: the first part, then the second. -/
def andThen (r : Except ε (α × List A)) (s : α → Except ε (β × List A)) : Except ε (β × List A) :=
  match r with
  | .ok (a, bs) => (s a).map fun (b, cs) => (b, bs ++ cs)
  | .error e => .error e

theorem Writes.bind {m : M A ε α} {f : α → M A ε β} {r : Except ε (α × List A)}
    {s : α → Except ε (β × List A)} (hm : Writes m r) (hf : ∀ a, Writes (f a) (s a)) :
    Writes (m >>= f) (andThen r s) := by
  match r, hm with
  | .error e, ⟨bs, h⟩ => exact ⟨bs, h.bind_error⟩
  | .ok (a, bs), h =>
    have hfa := hf a
    rw [andThen]
    match s a, hfa with
    | .error e, ⟨cs, h'⟩ => exact ⟨bs ++ cs, h.bind_ok h'⟩
    | .ok (b, cs), h' => exact h.bind_ok h'

theorem writes_pure (a : α) : Writes (Pure.pure a : M A ε α) (.ok (a, [])) := appends_pure a

theorem writes_throw (e : ε) : Writes (M.throw e : M A ε α) (.error e) := ⟨[], appends_throw e⟩

theorem writes_extend (as : List A) : Writes (extend as : M A ε Unit) (.ok ((), as)) :=
  appends_extend as

theorem Writes.rollback {m : M A ε α} {r : Except ε (α × List A)} (hm : Writes m r) :
    Writes (M.rollback m) r := by
  match r, hm with
  | .error _, ⟨_, h⟩ => exact ⟨[], h.rollback_error⟩
  | .ok _, h => exact Appends.rollback_ok h

theorem Writes.watch {m : M A ε α} {r : Except ε (α × List A)} (hm : Writes m r) :
    Writes (M.watch m) (r.map fun (a, bs) => ((a, bs.isEmpty), bs)) := by
  match r, hm with
  | .error _, ⟨bs, h⟩ => exact ⟨bs, h.watch_error⟩
  | .ok _, h => exact Appends.watch_ok h

theorem Writes.congr {m : M A ε α} {r s : Except ε (α × List A)} (hm : Writes m r) (h : r = s) :
    Writes m s := h ▸ hm

/-! ## The replacing loop -/

/-- Copy `remaining`, replacing the element at each index `find` returns.  The
    fuel bounds the number of replacements. -/
def substLoop (find : List A → Option ℕ) (subst : A → List A) :
    ℕ → List A → M A ε Unit
  | 0, remaining => extend remaining
  | fuel + 1, remaining =>
    match find remaining with
    | some i => do
      extend (remaining.take i)
      extend ((remaining.drop i).head?.elim [] subst)
      substLoop find subst fuel (remaining.drop (i + 1))
    | none => extend remaining

/-- Every element that satisfies `p` replaced by its substitute. -/
def substAll (p : A → Bool) (subst : A → List A) (as : List A) : List A :=
  as.flatMap fun a => if p a then subst a else [a]

section
variable {p : A → Bool} {subst : A → List A}

theorem substAll_cons (a : A) (as : List A) :
    substAll p subst (a :: as) = (if p a then subst a else [a]) ++ substAll p subst as := by
  simp [substAll]

theorem substAll_append (as bs : List A) :
    substAll p subst (as ++ bs) = substAll p subst as ++ substAll p subst bs := by
  simp [substAll]

theorem substAll_of_none {as : List A} (h : ∀ a ∈ as, p a = false) : substAll p subst as = as := by
  induction as with
  | nil => rfl
  | cons a as ih =>
    have ha := h a List.mem_cons_self
    rw [show a :: as = [a] ++ as by rfl, substAll_append, ih fun b hb => h b (List.mem_cons_of_mem a hb)]
    simp [substAll, ha]

/-- The list does not shrink where nothing is replaced by nothing. -/
theorem length_le_substAll (h : ∀ a, p a = true → subst a ≠ []) (as : List A) :
    as.length ≤ (substAll p subst as).length := by
  induction as with
  | nil => simp
  | cons a as ih =>
    have ha : 0 < (if p a then subst a else [a]).length := by
      split
      · rename_i hp; exact List.length_pos_iff.mpr (h a hp)
      · simp
    simp only [substAll_cons, List.length_append, List.length_cons]
    omega

/-- **The loop appends the list with every element satisfying `p` replaced**,
    when the search returns the first such element. -/
theorem substLoop_appends {find : List A → Option ℕ} (hfind : ∀ as, find as = as.findIdx? p) :
    ∀ (fuel : ℕ) (as : List A), as.length ≤ fuel →
      Appends (substLoop find subst fuel as : M A ε Unit) (.ok ()) (substAll p subst as) := by
  intro fuel
  induction fuel with
  | zero =>
    intro as h
    obtain rfl : as = [] := List.length_eq_zero_iff.mp (by omega)
    exact appends_extend []
  | succ fuel ih =>
    intro as h
    rw [substLoop, hfind]
    rcases hi : as.findIdx? p with _ | i
    · refine (appends_extend as).congr rfl (substAll_of_none fun a ha => ?_).symm
      simpa using List.findIdx?_eq_none_iff.mp hi a ha
    · obtain ⟨hlt, hp, hmin⟩ := List.findIdx?_eq_some_iff_getElem.mp hi
      have hsplit : as = as.take i ++ (as[i] :: as.drop (i + 1)) := by
        rw [List.getElem_cons_drop, List.take_append_drop]
      have htake : substAll p subst (as.take i) = as.take i := by
        refine substAll_of_none fun a ha => ?_
        obtain ⟨j, hj, rfl⟩ := List.mem_iff_getElem.mp ha
        simp only [List.length_take] at hj
        simpa using hmin j (by omega)
      have hhead : (as.drop i).head? = some as[i] := by
        rw [List.head?_drop, List.getElem?_eq_getElem hlt]
      have hrest := ih (as.drop (i + 1)) (by simp; omega)
      refine ((appends_extend _).bind_ok ((appends_extend _).bind_ok hrest)).congr rfl ?_
      conv_rhs => rw [hsplit, substAll_append, htake, substAll_cons, if_pos hp]
      rw [hhead]; rfl

end

end Append
