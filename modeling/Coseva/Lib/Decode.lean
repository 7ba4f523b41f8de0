/-
  Decoders of byte strings: a computation that takes bytes off the front of its
  input, and what it makes of a text that an encoder wrote.

  * `toLe`, `ofLe`: numbers of a fixed width, the lowest byte first;
  * `take`: a number of bytes, or an error when the input is too short;
  * `Decodes`: a decoder reads a text, whatever follows it.
-/
import Coseva.Lib.Run
import Mathlib.Data.Nat.Digits.Lemmas

namespace Decode

open Run

/-! ## Numbers -/

/-- The `width` lowest bytes of a number. -/
def toLe (width n : ℕ) : List UInt8 := (List.range width).map fun i => UInt8.ofNat (n / 256 ^ i)

/-- The number of some bytes. -/
def ofLe (bytes : List UInt8) : ℕ := Nat.ofDigits 256 (bytes.map UInt8.toNat)

@[simp] theorem length_toLe (width n : ℕ) : (toLe width n).length = width := by
  simp [toLe]

theorem ofLe_toLe (width n : ℕ) : ofLe (toLe width n) = n % 256 ^ width := by
  induction width with
  | zero => rw [pow_zero, Nat.mod_one]; rfl
  | succ width ih =>
    have hsplit : toLe (width + 1) n = toLe width n ++ [UInt8.ofNat (n / 256 ^ width)] := by
      simp [toLe, List.range_succ]
    unfold ofLe at ih ⊢
    rw [hsplit, List.map_append, Nat.ofDigits_append, ih, List.length_map, length_toLe,
      Nat.mod_pow_succ]
    simp [Nat.ofDigits_singleton]

theorem ofLe_toLe_of_lt {width n : ℕ} (h : n < 256 ^ width) : ofLe (toLe width n) = n := by
  rw [ofLe_toLe, Nat.mod_eq_of_lt h]

theorem ofLe_lt (bytes : List UInt8) : ofLe bytes < 256 ^ bytes.length := by
  have := Nat.ofDigits_lt_base_pow_length (b := 256) (l := bytes.map UInt8.toNat) (by decide)
    (by simpa using fun b _ => b.toNat_lt)
  rwa [List.length_map] at this

theorem toLe_succ (width n : ℕ) : toLe (width + 1) n = UInt8.ofNat n :: toLe width (n / 256) := by
  unfold toLe
  rw [List.range_succ_eq_map, List.map_cons, List.map_map, pow_zero, Nat.div_one]
  refine congrArg _ (List.map_congr_left fun i _ => ?_)
  rw [Function.comp_apply, Nat.succ_eq_add_one, pow_succ', Nat.div_div_eq_div_mul]

theorem toLe_ofLe (bytes : List UInt8) : toLe bytes.length (ofLe bytes) = bytes := by
  induction bytes with
  | nil => rfl
  | cons b bytes ih =>
    have hof : ofLe (b :: bytes) = b.toNat + 256 * ofLe bytes := by
      simp [ofLe, Nat.ofDigits_cons]
    have hlow : UInt8.ofNat (b.toNat + 256 * ofLe bytes) = b := by
      rw [← UInt8.toNat_inj, UInt8.toNat_ofNat', Nat.add_mul_mod_self_left]
      exact Nat.mod_eq_of_lt b.toNat_lt
    have hhigh : (b.toNat + 256 * ofLe bytes) / 256 = ofLe bytes := by
      have := b.toNat_lt
      omega
    rw [List.length_cons, toLe_succ, hof, hlow, hhigh, ih]

/-! ## Decoders -/

variable {ε α β γ : Type}

/-- The next `n` bytes. -/
def take (short : ε) (n : ℕ) : EStateM ε (List α) (List α) := fun rest =>
  if n ≤ rest.length then .ok (rest.take n) (rest.drop n) else .error short rest

/-- What `take` returns stood in front of what it leaves. -/
theorem take_ok {short : ε} {n : ℕ} {rest text rest' : List α}
    (h : take short n rest = .ok text rest') : rest = text ++ rest' ∧ text.length = n := by
  unfold take at h
  split_ifs at h with hn
  obtain ⟨rfl, rfl⟩ := EStateM.Result.ok.inj h
  exact ⟨(List.take_append_drop n rest).symm, by simpa using hn⟩

/-- A computation of which nothing is asked but that it ends in `Q`. -/
theorem Ends.skip {m : EStateM ε (List α) β} {f : β → EStateM ε (List α) γ}
    {Q : γ → List α → Prop} (hf : ∀ b rest, Ends (fun _ _ => True) Q (f b rest)) (rest : List α) :
    Ends (fun _ _ => True) Q ((m >>= f) rest) := by
  refine Ends.bind (P := fun _ _ => True) ?_ fun b rest' _ => hf b rest'
  rcases m rest with ⟨b, rest'⟩ | ⟨e, rest'⟩ <;> trivial

/-- The decoder reads `b` off `text`, whatever follows. -/
def Decodes (m : EStateM ε (List α) β) (text : List α) (b : β) : Prop :=
  ∀ rest, m (text ++ rest) = .ok b rest

namespace Decodes

variable {m : EStateM ε (List α) β} {f : β → EStateM ε (List α) γ} {u v : List α} {b : β} {c : γ}

theorem take {short : ε} {n : ℕ} (hn : u.length = n) : Decodes (Decode.take short n) u u := by
  intro rest
  subst hn
  simp [Decode.take]

theorem pure (b : β) : Decodes (pure b : EStateM ε (List α) β) [] b := fun _ => rfl

theorem bind (hm : Decodes m u b) (hf : Decodes (f b) v c) : Decodes (m >>= f) (u ++ v) c := by
  intro rest
  rw [List.append_assoc, bind_ok (hm (v ++ rest))]
  exact hf rest

/-- A step that reads nothing. -/
theorem bind_nil (hm : Decodes m [] b) (hf : Decodes (f b) v c) : Decodes (m >>= f) v c :=
  hm.bind hf

/-- A step behind which nothing is read. -/
theorem bind_last (hm : Decodes m u b) (hf : Decodes (f b) [] c) : Decodes (m >>= f) u c := by
  have := hm.bind hf
  rwa [List.append_nil] at this

theorem map {g : β → γ} (hm : Decodes m u b) : Decodes (g <$> m) u (g b) :=
  fun rest => map_ok (hm rest)

end Decodes

end Decode
