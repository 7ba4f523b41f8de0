/-
  UTF-8 as a property of a list of bytes: what is an encoding of characters, where
  its characters begin, and what is left when it is cut between two of them.

  * `Valid`: the bytes are the encoding of some characters;
  * `isCharBoundary`: a character begins at an offset, by the byte there alone;
  * `fromUtf8Lossy`: the valid text in which each invalid part is replaced.
-/
import Mathlib.Data.List.Basic
import Mathlib.Data.List.Induction
import Mathlib.Tactic.Common

namespace Utf8

/-- The encoding of characters. -/
def encode (chars : List Char) : List UInt8 := chars.flatMap String.utf8EncodeChar

/-- The bytes are an encoding. -/
def Valid (bytes : List UInt8) : Prop := ∃ chars, encode chars = bytes

/-- A byte inside a character. -/
def isContinuation (b : UInt8) : Bool := 128 ≤ b && b < 192

/-- A character begins at an offset, or the bytes end there. -/
def isCharBoundary (bytes : List UInt8) (index : ℕ) : Bool :=
  index == 0 ||
    match bytes[index]? with
    | none => index == bytes.length
    | some b => !isContinuation b

/-! ## The bytes of one character -/

theorem isContinuation_ofNat (n : ℕ) : isContinuation (UInt8.ofNat (n % 64 + 128)) = true := by
  have hmod := Nat.mod_lt n (show 0 < 64 by decide)
  have hlt : (UInt8.ofNat (n % 64 + 128)).toNat = n % 64 + 128 := by
    rw [UInt8.toNat_ofNat']
    omega
  simp only [isContinuation, Bool.and_eq_true, decide_eq_true_eq, UInt8.le_iff_toNat_le,
    UInt8.lt_iff_toNat_lt, hlt, UInt8.reduceToNat]
  omega

/-- A byte at the front of a character of several bytes. -/
theorem lead_ofNat {n bound base : ℕ} (hbase : 192 ≤ base) (hbound : bound + base ≤ 256)
    (hpos : 0 < bound) : 192 ≤ UInt8.ofNat (n % bound + base) := by
  have hmod := Nat.mod_lt n hpos
  rw [UInt8.le_iff_toNat_le, UInt8.toNat_ofNat', Nat.mod_eq_of_lt (by omega)]
  exact Nat.le_trans hbase (Nat.le_add_left _ _)

/-- A character is one byte below 128, or a front byte with continuation bytes behind it. -/
theorem encodeChar_cases (c : Char) :
    (∃ b, String.utf8EncodeChar c = [b] ∧ b < 128) ∨
      ∃ b rest, String.utf8EncodeChar c = b :: rest ∧ 192 ≤ b ∧ rest ≠ [] ∧
        ∀ x ∈ rest, isContinuation x = true := by
  unfold String.utf8EncodeChar
  simp only
  split_ifs with h₁ h₂ h₃
  · refine Or.inl ⟨_, rfl, ?_⟩
    rw [UInt8.lt_iff_toNat_lt, UInt8.toNat_ofNat', Nat.mod_eq_of_lt (by omega)]
    exact Nat.lt_succ_of_le h₁
  · refine Or.inr ⟨_, _, rfl, lead_ofNat (by decide) (by decide) (by decide), by simp, ?_⟩
    simp only [List.forall_mem_cons, isContinuation_ofNat, true_and, List.not_mem_nil,
      IsEmpty.forall_iff, implies_true]
  · refine Or.inr ⟨_, _, rfl, lead_ofNat (by decide) (by decide) (by decide), by simp, ?_⟩
    simp only [List.forall_mem_cons, isContinuation_ofNat, true_and, List.not_mem_nil,
      IsEmpty.forall_iff, implies_true]
  · refine Or.inr ⟨_, _, rfl, lead_ofNat (by decide) (by decide) (by decide), by simp, ?_⟩
    simp only [List.forall_mem_cons, isContinuation_ofNat, true_and, List.not_mem_nil,
      IsEmpty.forall_iff, implies_true]

theorem not_isContinuation_of_lt {b : UInt8} (h : b < 128) : isContinuation b = false := by
  simp only [isContinuation, Bool.and_eq_false_iff, decide_eq_false_iff_not]
  exact Or.inl (UInt8.not_le.mpr h)

theorem not_isContinuation_of_le {b : UInt8} (h : 192 ≤ b) : isContinuation b = false := by
  simp only [isContinuation, Bool.and_eq_false_iff, decide_eq_false_iff_not]
  exact Or.inr (UInt8.not_lt.mpr h)

theorem le_of_isContinuation {b : UInt8} (h : isContinuation b = true) : ¬ b < 128 := by
  intro hlt
  rw [not_isContinuation_of_lt hlt] at h
  cases h

/-- The first byte of a character is not inside one. -/
theorem encodeChar_head (c : Char) : ∃ b rest, String.utf8EncodeChar c = b :: rest ∧
    isContinuation b = false ∧ ∀ x ∈ rest, isContinuation x = true := by
  rcases encodeChar_cases c with ⟨b, hb, hlt⟩ | ⟨b, rest, hb, hle, -, hrest⟩
  · exact ⟨b, [], hb, not_isContinuation_of_lt hlt, by simp⟩
  · exact ⟨b, rest, hb, not_isContinuation_of_le hle, hrest⟩

/-! ## Encodings -/

@[simp] theorem encode_nil : encode [] = [] := rfl

theorem encode_cons (c : Char) (chars : List Char) :
    encode (c :: chars) = String.utf8EncodeChar c ++ encode chars := by
  simp [encode]

theorem encode_append (chars chars' : List Char) :
    encode (chars ++ chars') = encode chars ++ encode chars' := List.flatMap_append

@[simp] theorem valid_nil : Valid [] := ⟨[], rfl⟩

theorem Valid.append {a b : List UInt8} (ha : Valid a) (hb : Valid b) : Valid (a ++ b) := by
  obtain ⟨chars, rfl⟩ := ha
  obtain ⟨chars', rfl⟩ := hb
  exact ⟨chars ++ chars', encode_append _ _⟩

theorem valid_flatten {parts : List (List UInt8)} (h : ∀ part ∈ parts, Valid part) :
    Valid parts.flatten := by
  induction parts with
  | nil => exact valid_nil
  | cons part parts ih =>
    rw [List.flatten_cons]
    exact (h part List.mem_cons_self).append (ih fun x hx => h x (List.mem_cons_of_mem _ hx))

/-- Bytes below 128 are characters. -/
theorem valid_of_ascii {bytes : List UInt8} (h : ∀ b ∈ bytes, b < 128) : Valid bytes := by
  induction bytes with
  | nil => exact valid_nil
  | cons b bytes ih =>
    have hb : b.toNat < 128 := UInt8.lt_iff_toNat_lt.mp (h b List.mem_cons_self)
    have hone : Valid [b] := by
      refine ⟨[Char.ofNat b.toNat], ?_⟩
      have hval : (Char.ofNat b.toNat).val.toNat = b.toNat := by
        have hvalid : b.toNat.isValidChar := Or.inl (by omega)
        rw [Char.ofNat, dif_pos hvalid]
        rfl
      simp only [encode, List.flatMap_cons, List.flatMap_nil, List.append_nil, String.utf8EncodeChar]
      rw [if_pos (by rw [hval]; omega), hval, UInt8.ofNat_toNat]
    exact hone.append (ih fun x hx => h x (List.mem_cons_of_mem _ hx))

theorem isValidUTF8_iff {bytes : List UInt8} :
    ByteArray.IsValidUTF8 bytes.toByteArray ↔ Valid bytes := by
  constructor
  · rintro ⟨chars, hchars⟩
    exact ⟨chars, (List.toByteArray_inj.mp hchars).symm⟩
  · rintro ⟨chars, rfl⟩
    exact ⟨chars, rfl⟩

instance (bytes : List UInt8) : Decidable (Valid bytes) := decidable_of_iff _ isValidUTF8_iff

/-! ## Cuts between characters -/

/-- **A valid text falls into two at a character boundary.** -/
theorem Valid.split {bytes : List UInt8} (h : Valid bytes) {index : ℕ}
    (hindex : isCharBoundary bytes index = true) :
    Valid (bytes.take index) ∧ Valid (bytes.drop index) := by
  obtain ⟨chars, rfl⟩ := h
  induction chars generalizing index with
  | nil => simp
  | cons c chars ih =>
    obtain ⟨b, rest, hc, -, hrest⟩ := encodeChar_head c
    obtain ⟨front, hfront⟩ : ∃ front, String.utf8EncodeChar c = front := ⟨_, rfl⟩
    have hone : Valid front := ⟨[c], by rw [encode_cons, encode_nil, List.append_nil, hfront]⟩
    rw [encode_cons, hfront] at hindex ⊢
    rcases Nat.lt_or_ge index front.length with hlt | hge
    · -- inside the first character only its front is a boundary
      rcases Nat.eq_zero_or_pos index with rfl | hpos
      · exact ⟨valid_nil, hone.append ⟨chars, rfl⟩⟩
      · obtain ⟨i, rfl⟩ : ∃ i, index = i + 1 := ⟨index - 1, by omega⟩
        have hlen : i < rest.length := by
          rw [← hfront, hc] at hlt
          simpa using hlt
        have hbyte : (front ++ encode chars)[i + 1]? = some rest[i] := by
          rw [List.getElem?_append_left hlt, ← hfront, hc, List.getElem?_cons_succ,
            List.getElem?_eq_getElem hlen]
        rw [isCharBoundary, hbyte] at hindex
        simp [hrest _ (List.getElem_mem hlen)] at hindex
    · have hinner : isCharBoundary (encode chars) (index - front.length) = true := by
        rcases Nat.eq_zero_or_pos (index - front.length) with hzero | hpos
        · rw [hzero]
          rfl
        · rw [isCharBoundary, Bool.or_eq_true] at hindex ⊢
          rw [List.getElem?_append_right hge] at hindex
          rcases hindex with hindex | hindex
          · simp only [beq_iff_eq] at hindex
            omega
          · refine Or.inr ?_
            rcases hget : (encode chars)[index - front.length]? with _ | x
            · rw [hget] at hindex
              simp only [List.length_append, beq_iff_eq] at hindex ⊢
              omega
            · rw [hget] at hindex
              exact hindex
      obtain ⟨htake, hdrop⟩ := ih hinner
      rw [List.take_append, List.take_of_length_le hge, List.drop_append,
        List.drop_of_length_le hge, List.nil_append]
      exact ⟨hone.append htake, hdrop⟩

/-! ## Trimming bytes below 128 -/

section trim

variable {p : UInt8 → Bool} (hp : ∀ b, p b = true → b < 128)

include hp

theorem Valid.dropWhile {bytes : List UInt8} (h : Valid bytes) : Valid (bytes.dropWhile p) := by
  obtain ⟨chars, rfl⟩ := h
  induction chars with
  | nil => exact valid_nil
  | cons c chars ih =>
    rcases encodeChar_cases c with ⟨b, hc, -⟩ | ⟨b, rest, hc, hle, -, -⟩
    · rw [encode_cons, hc, List.singleton_append, List.dropWhile_cons]
      split_ifs with hb
      · exact ih
      · exact ⟨c :: chars, by rw [encode_cons, hc, List.singleton_append]⟩
    · have hb : ¬ p b = true := fun hb => UInt8.not_le.mpr (hp b hb) (UInt8.le_trans (by decide) hle)
      rw [encode_cons, hc, List.cons_append, List.dropWhile_cons, if_neg hb]
      exact ⟨c :: chars, by rw [encode_cons, hc, List.cons_append]⟩

theorem Valid.rdropWhile {bytes : List UInt8} (h : Valid bytes) :
    Valid (bytes.reverse.dropWhile p).reverse := by
  obtain ⟨chars, rfl⟩ := h
  induction chars using List.reverseRecOn with
  | nil => exact valid_nil
  | append_singleton chars c ih =>
    rw [encode_append, encode_cons, encode_nil, List.append_nil]
    rcases encodeChar_cases c with ⟨b, hc, -⟩ | ⟨b, rest, hc, -, hne, hrest⟩
    · rw [hc, List.reverse_append, List.reverse_singleton, List.singleton_append, List.dropWhile_cons]
      split_ifs with hb
      · exact ih
      · rw [List.reverse_cons, List.reverse_reverse]
        exact ⟨chars ++ [c], by rw [encode_append, encode_cons, hc]; rfl⟩
    · obtain ⟨front, last, rfl⟩ : ∃ front last, rest = front ++ [last] :=
        ⟨_, _, (List.dropLast_append_getLast hne).symm⟩
      have hlast : ¬ p last = true := fun hb =>
        le_of_isContinuation (hrest last (by simp)) (hp last hb)
      have hsplit : encode chars ++ String.utf8EncodeChar c =
          (encode chars ++ (b :: front)) ++ [last] := by
        rw [hc, List.append_assoc, List.cons_append]
      rw [hsplit, List.reverse_append, List.reverse_singleton, List.singleton_append,
        List.dropWhile_cons, if_neg hlast, List.reverse_cons, List.reverse_reverse, ← hsplit]
      exact ⟨chars ++ [c], by rw [encode_append, encode_cons, encode_nil, List.append_nil]⟩

end trim

/-! ## Lossy conversion -/

/-- The first character of the bytes. -/
def firstChar (bytes : List UInt8) : Option Char := bytes.toByteArray.utf8DecodeChar? 0

/-- A byte that may follow the front byte of a character of three or four bytes. -/
def followsLead (lead b : UInt8) : Bool :=
  if lead = 0xE0 then 0xA0 ≤ b && b ≤ 0xBF
  else if lead = 0xED then 0x80 ≤ b && b ≤ 0x9F
  else if 0xE1 ≤ lead && lead ≤ 0xEF then 0x80 ≤ b && b ≤ 0xBF
  else if lead = 0xF0 then 0x90 ≤ b && b ≤ 0xBF
  else if 0xF1 ≤ lead && lead ≤ 0xF3 then 0x80 ≤ b && b ≤ 0xBF
  else if lead = 0xF4 then 0x80 ≤ b && b ≤ 0x8F
  else false

/-- How many bytes one replacement stands for, where no character begins: the longest part
    that could begin one, and at least one byte. -/
def invalidWidth : List UInt8 → ℕ
  | lead :: b :: rest =>
    if followsLead lead b then
      match rest with
      | c :: _ => if 0xF0 ≤ lead && isContinuation c then 3 else 2
      | [] => 2
    else 1
  | _ => 1

/-- `U+FFFD`. -/
def replacement : Char := Char.ofNat 0xFFFD

/-- The loop of the conversion, over at most `fuel` characters. -/
def lossyLoop : ℕ → List UInt8 → List Char
  | 0, _ => []
  | _, [] => []
  | fuel + 1, bytes =>
    match firstChar bytes with
    | some c => c :: lossyLoop fuel (bytes.drop c.utf8Size)
    | none => replacement :: lossyLoop fuel (bytes.drop (invalidWidth bytes))

/-- `String::from_utf8_lossy`. -/
def fromUtf8Lossy (bytes : List UInt8) : List UInt8 := encode (lossyLoop bytes.length bytes)

theorem valid_fromUtf8Lossy (bytes : List UInt8) : Valid (fromUtf8Lossy bytes) := ⟨_, rfl⟩

end Utf8
