/-
  Coseva — integers from the bytes of a field (`coseva/src/from_bytes.rs`).

  * `IntType`: the integer types by sign and width, with `Value`, an integer in range;
  * `unsignedParser`, `signedParser`: the bodies of `define_unsigned_parser` and
    `define_signed_parser`, whose overflowing arithmetic is a fault of its own;
  * `Denotes`: the decimal integers, optionally signed;
  * `fromBytes_exact`: the parsers accept what denotes an integer in range.
-/
import Coseva.Engine
import Coseva.Lib.Numeral

namespace Coseva

/-! ## Integer types -/

/-- An integer type of the language. -/
structure IntType where
  signed : Bool
  bits : ℕ
  bits_ge : 8 ≤ bits
  deriving DecidableEq, Repr

namespace IntType

def i8 : IntType := ⟨true, 8, by decide⟩
def i16 : IntType := ⟨true, 16, by decide⟩
def i32 : IntType := ⟨true, 32, by decide⟩
def i64 : IntType := ⟨true, 64, by decide⟩
def i128 : IntType := ⟨true, 128, by decide⟩
def u8 : IntType := ⟨false, 8, by decide⟩
def u16 : IntType := ⟨false, 16, by decide⟩
def u32 : IntType := ⟨false, 32, by decide⟩
def u64 : IntType := ⟨false, 64, by decide⟩
def u128 : IntType := ⟨false, 128, by decide⟩

variable (T : IntType)

/-- `MAX`, as a natural number. -/
def maxNat : ℕ := if T.signed then 2 ^ (T.bits - 1) - 1 else 2 ^ T.bits - 1

/-- `MAX`. -/
def max : ℤ := T.maxNat

/-- `MIN`. -/
def min : ℤ := if T.signed then -2 ^ (T.bits - 1) else 0

/-- A value of the type. -/
abbrev Value := { v : ℤ // T.min ≤ v ∧ v ≤ T.max }

theorem maxNat_ge : 127 ≤ T.maxNat := by
  have hpow : ∀ {n : ℕ}, 7 ≤ n → 128 ≤ 2 ^ n := fun h => Nat.pow_le_pow_right (n := 2) (by decide) h
  have hbits := T.bits_ge
  unfold maxNat
  split_ifs
  · have := hpow (show 7 ≤ T.bits - 1 by omega)
    omega
  · have := hpow (show 7 ≤ T.bits by omega)
    omega

theorem min_nonpos : T.min ≤ 0 := by
  unfold min
  split_ifs
  · exact neg_nonpos.2 (by positivity)
  · exact le_rfl

/-- The negative values of a signed type reach one further than the positive ones. -/
theorem min_le_neg (h : T.signed = true) : T.min ≤ -T.max := by
  have hpos : 0 < 2 ^ (T.bits - 1) := by positivity
  have hmax : T.maxNat = 2 ^ (T.bits - 1) - 1 := if_pos h
  have hmin : T.min = -((2 ^ (T.bits - 1) : ℕ) : ℤ) := by
    rw [min, if_pos h]
    push_cast
    rfl
  rw [hmin, max, hmax]
  omega

/-- The value, when the type has it. -/
def ofInt (v : ℤ) : Option T.Value := if h : T.min ≤ v ∧ v ≤ T.max then some ⟨v, h⟩ else none

theorem ofInt_eq_some {v : ℤ} {x : T.Value} : T.ofInt v = some x ↔ v = x.val := by
  unfold ofInt
  constructor
  · intro h
    split_ifs at h
    exact congrArg Subtype.val (Option.some.inj h)
  · rintro rfl
    exact dif_pos x.2

end IntType

/-- Why an integer is not parsed. -/
inductive IntegerFault
  /-- `ErrorKind::EmptyField` -/
  | emptyField
  /-- `ErrorKind::InvalidDigit` -/
  | invalidDigit
  /-- `ErrorKind::OutOfRange` -/
  | outOfRange
  /-- an unchecked operation leaves the type -/
  | overflow
  deriving DecidableEq, Repr

namespace IntType

variable (T : IntType)

/-! ## Arithmetic -/

def zero : T.Value := ⟨0, T.min_nonpos, Int.natCast_nonneg _⟩

def ten : T.Value := ⟨10, T.min_nonpos.trans (by decide), by
  have := T.maxNat_ge
  rw [max]
  omega⟩

/-- Only `i8` lacks a byte's values. -/
theorem eq_i8 (h : T.maxNat < 255) : T = i8 := by
  have hpow : ∀ {n : ℕ}, 8 ≤ n → 256 ≤ 2 ^ n := fun h => Nat.pow_le_pow_right (n := 2) (by decide) h
  obtain ⟨signed, bits, hbits⟩ := T
  cases signed with
  | false =>
    have := hpow hbits
    simp only [maxNat, Bool.false_eq_true, if_false] at h
    omega
  | true =>
    rcases Nat.lt_or_ge bits 9 with hlt | hge
    · obtain rfl : bits = 8 := by omega
      rfl
    · have := hpow (show 8 ≤ bits - 1 by omega)
      simp only [maxNat, if_true] at h
      omega

/-- `DigitFromU8::from_digit`: `from`, and `cast_signed` for `i8`. -/
def fromDigit (digit : UInt8) : T.Value :=
  if h : (digit.toNat : ℤ) ≤ T.max then ⟨digit.toNat, T.min_nonpos.trans (Int.natCast_nonneg _), h⟩
  else ⟨digit.toNat - 256, by
    have hlt := digit.toNat_lt
    obtain rfl := T.eq_i8 (by rw [max] at h; omega)
    rw [show i8.max = 127 from rfl] at h ⊢
    rw [show i8.min = -128 from rfl]
    omega⟩

theorem fromDigit_val {digit : UInt8} (h : digit.toNat < 10) :
    (T.fromDigit digit).val = digit.toNat := by
  have hmax := T.maxNat_ge
  have hle : (digit.toNat : ℤ) ≤ T.max := by
    rw [max]
    omega
  rw [fromDigit, dif_pos hle]

variable {T}

/-- `checked_mul`. -/
def checkedMul (a b : T.Value) : Option T.Value := T.ofInt (a.val * b.val)

/-- `checked_add`. -/
def checkedAdd (a b : T.Value) : Option T.Value := T.ofInt (a.val + b.val)

/-- `checked_sub`. -/
def checkedSub (a b : T.Value) : Option T.Value := T.ofInt (a.val - b.val)

/-- The unchecked operation whose checked one is given. -/
def unchecked (result : Option T.Value) : Except IntegerFault T.Value := result.getDM (.error .overflow)

/-- The checked operation, with its error. -/
def orOutOfRange (result : Option T.Value) : Except IntegerFault T.Value := result.getDM (.error .outOfRange)

/-! ## The parsers -/

/-- The loop without range checks, downwards for a negative number. -/
def uncheckedLoop (negative : Bool) : Bytes → T.Value → Except IntegerFault T.Value
  | [], value => .ok value
  | byte :: rest, value =>
    let digit := byte - 48
    if digit > 9 then .error .invalidDigit
    else do
      let scaled ← unchecked (checkedMul value T.ten)
      let value ← unchecked (
        if negative then checkedSub scaled (T.fromDigit digit) else checkedAdd scaled (T.fromDigit digit))
      uncheckedLoop negative rest value

/-- The loop with range checks. -/
def checkedLoop (negative : Bool) : Bytes → T.Value → Except IntegerFault T.Value
  | [], value => .ok value
  | byte :: rest, value =>
    let digit := byte - 48
    if digit > 9 then .error .invalidDigit
    else do
      let value ← orOutOfRange ((checkedMul value T.ten).bind fun scaled =>
        if negative then checkedSub scaled (T.fromDigit digit) else checkedAdd scaled (T.fromDigit digit))
      checkedLoop negative rest value

variable (T)

/-- `ALWAYS_FITS`: `MAX.ilog10()`. -/
def alwaysFits : ℕ := Nat.log 10 T.maxNat

/-- What the parsers do behind the sign. -/
def parseDigits (negative : Bool) (digits : Bytes) : Except IntegerFault T.Value :=
  if digits.isEmpty then .error .emptyField
  else if digits.length ≤ T.alwaysFits then uncheckedLoop negative digits T.zero
  else checkedLoop negative digits T.zero

/-- `define_unsigned_parser`. -/
def unsignedParser (bytes : Bytes) : Except IntegerFault T.Value :=
  match bytes with
  | 43 :: rest => T.parseDigits false rest
  | _ => T.parseDigits false bytes

/-- `define_signed_parser`. -/
def signedParser (bytes : Bytes) : Except IntegerFault T.Value :=
  match bytes with
  | 45 :: rest => T.parseDigits true rest
  | 43 :: rest => T.parseDigits false rest
  | _ => T.parseDigits false bytes

/-- The parser of a type. -/
def parser (bytes : Bytes) : Except IntegerFault T.Value :=
  if T.signed then T.signedParser bytes else T.unsignedParser bytes

end IntType

/-! ## Decimal integers -/

/-- A decimal digit. -/
def IsDecimal (byte : UInt8) : Prop := 48 ≤ byte.toNat ∧ byte.toNat ≤ 57

instance (byte : UInt8) : Decidable (IsDecimal byte) := inferInstanceAs (Decidable (_ ∧ _))

/-- One or more decimal digits. -/
def Decimal (digits : Bytes) : Prop := digits ≠ [] ∧ ∀ byte ∈ digits, IsDecimal byte

instance (digits : Bytes) : Decidable (Decimal digits) := inferInstanceAs (Decidable (_ ∧ _))

/-- The number that decimal digits denote, the last one counting once. -/
def decimal (digits : Bytes) : ℕ := Nat.ofDigits 10 (digits.reverse.map fun byte => byte.toNat - 48)

/-- The bytes denote an integer: digits behind a sign, or behind none. -/
inductive IntType.Denotes (T : IntType) : Bytes → ℤ → Prop
  | bare {digits} : Decimal digits → T.Denotes digits (decimal digits)
  | plus {digits} : Decimal digits → T.Denotes (43 :: digits) (decimal digits)
  | minus {digits} : T.signed = true → Decimal digits → T.Denotes (45 :: digits) (-decimal digits)

namespace IntType

variable {T : IntType}

/-- A number with a sign. -/
def withSign (negative : Bool) (n : ℕ) : ℤ := if negative then -n else n

/-- The sign is one of the type. -/
def Signs (T : IntType) (negative : Bool) : Prop := negative = true → T.signed = true

/-- The digits of a decimal. -/
def digitsOf (digits : Bytes) : List ℕ := digits.map fun byte => byte.toNat - 48

theorem decimal_eq (digits : Bytes) : decimal digits = Numeral.accumulate 10 0 (digitsOf digits) := by
  rw [Numeral.accumulate_zero, decimal, digitsOf, List.map_reverse]

/-! ## The loops -/

/-- What a byte is taken for. -/
theorem digit_cases (byte : UInt8) :
    (byte - 48 > 9 ∧ ¬ IsDecimal byte) ∨
      (¬ byte - 48 > 9 ∧ IsDecimal byte ∧ (byte - 48).toNat = byte.toNat - 48) := by
  have hsub : (byte - 48).toNat = (256 - 48 + byte.toNat) % 256 := UInt8.toNat_sub byte 48
  have hlt := byte.toNat_lt
  have hgt : byte - 48 > 9 ↔ 9 < (byte - 48).toNat := UInt8.lt_iff_toNat_lt
  rw [hgt, IsDecimal]
  omega

/-- Numbers no greater than one of the type are of the type. -/
theorem withSign_within {negative : Bool} {n m : ℕ} {x : T.Value} (hx : x.val = withSign negative m)
    (hle : n ≤ m) : T.min ≤ withSign negative n ∧ withSign negative n ≤ T.max := by
  obtain ⟨hmin, hmax⟩ := hx ▸ x.2
  have hmin₀ := T.min_nonpos
  have hmax₀ : 0 ≤ T.max := Int.natCast_nonneg _
  unfold withSign at hmin hmax ⊢
  cases negative with
  | true =>
    simp only [if_true] at hmin hmax ⊢
    omega
  | false =>
    simp only [Bool.false_eq_true, if_false] at hmin hmax ⊢
    omega

theorem ofInt_withSign {negative : Bool} {n : ℕ}
    (h : T.min ≤ withSign negative n ∧ withSign negative n ≤ T.max) :
    ∃ x : T.Value, T.ofInt (withSign negative n) = some x ∧ x.val = withSign negative n :=
  ⟨⟨_, h⟩, T.ofInt_eq_some.2 rfl, rfl⟩

variable {value : T.Value} {negative : Bool} {acc : ℕ}

theorem checkedMul_ten (hvalue : value.val = withSign negative acc) :
    checkedMul value T.ten = T.ofInt (withSign negative (acc * 10)) := by
  rw [checkedMul, hvalue]
  congr 1
  unfold withSign
  cases negative with
  | true => simp [ten]
  | false => simp [ten]

theorem checked_digit {digit : UInt8} (hdigit : digit.toNat < 10)
    (hvalue : value.val = withSign negative acc) :
    (if negative then checkedSub value (T.fromDigit digit) else checkedAdd value (T.fromDigit digit)) =
      T.ofInt (withSign negative (acc + digit.toNat)) := by
  unfold withSign at hvalue ⊢
  cases negative with
  | true =>
    simp only [if_true] at hvalue ⊢
    rw [checkedSub, hvalue, T.fromDigit_val hdigit]
    congr 1
    push_cast
    ring
  | false =>
    simp only [Bool.false_eq_true, if_false] at hvalue ⊢
    rw [checkedAdd, hvalue, T.fromDigit_val hdigit]
    congr 1

/-- One digit of the checked loop, of a number that the type has. -/
theorem checked_step {digit : UInt8} (hdigit : digit.toNat < 10)
    (hvalue : value.val = withSign negative acc) {next : T.Value}
    (hnext : next.val = withSign negative (acc * 10 + digit.toNat)) :
    ∃ scaled, checkedMul value T.ten = some scaled ∧
      (if negative then checkedSub scaled (T.fromDigit digit)
        else checkedAdd scaled (T.fromDigit digit)) = some next := by
  obtain ⟨scaled, hscaled, hval⟩ :=
    ofInt_withSign (withSign_within hnext (Nat.le_add_right (acc * 10) digit.toNat))
  refine ⟨scaled, (checkedMul_ten hvalue).trans hscaled, ?_⟩
  rw [checked_digit hdigit hval, T.ofInt_eq_some, hnext]

/-- **The checked loop** returns the number that the digits go on to, when the type has it. -/
theorem checkedLoop_eq_ok {digits : Bytes} {x : T.Value} (hvalue : value.val = withSign negative acc) :
    checkedLoop negative digits value = .ok x ↔ (∀ byte ∈ digits, IsDecimal byte) ∧
      x.val = withSign negative (Numeral.accumulate 10 acc (digitsOf digits)) := by
  induction digits generalizing value acc with
  | nil =>
    rw [checkedLoop, Except.ok.injEq, digitsOf, List.map_nil, Numeral.accumulate, ← hvalue,
      eq_comm, Subtype.ext_iff]
    exact ⟨fun h => ⟨fun _ h => absurd h List.not_mem_nil, h⟩, fun h => h.2⟩
  | cons byte digits ih =>
    rw [checkedLoop, digitsOf, List.map_cons, Numeral.accumulate, List.forall_mem_cons, ← digitsOf]
    rcases digit_cases byte with ⟨hgt, hnot⟩ | ⟨hle, hdecimal, hdigit⟩
    · rw [if_pos hgt]
      exact ⟨fun h => (by cases h), fun h => absurd h.1.1 hnot⟩
    rw [if_neg hle]
    have hten : (byte - 48).toNat < 10 := by
      rw [hdigit]
      have := hdecimal.2
      omega
    generalize byte - 48 = digit at hdigit hten ⊢
    rw [← hdigit]
    constructor
    · intro h
      rcases hmul : checkedMul value T.ten with _ | scaled
      · rw [hmul] at h
        cases h
      rw [hmul] at h
      have hscaled : withSign negative (acc * 10) = scaled.val :=
        T.ofInt_eq_some.1 ((checkedMul_ten hvalue).symm.trans hmul)
      have hadd := checked_digit hten hscaled.symm
      simp only [Option.bind_some, hadd] at h
      rcases hnext : T.ofInt (withSign negative (acc * 10 + digit.toNat)) with _ | next
      · rw [hnext] at h
        cases h
      rw [hnext] at h
      obtain ⟨hall, hx⟩ := (ih (T.ofInt_eq_some.1 hnext).symm).1 h
      exact ⟨⟨hdecimal, hall⟩, hx⟩
    · rintro ⟨⟨-, hall⟩, hx⟩
      obtain ⟨next, -, hnext⟩ :=
        ofInt_withSign (withSign_within hx (Numeral.le_accumulate (by decide) _ _))
      obtain ⟨scaled, hmul, hadd⟩ := checked_step hten hvalue hnext
      rw [hmul, Option.bind_some, hadd]
      exact (ih hnext).2 ⟨hall, hx⟩

/-- Why the checked loop fails. -/
theorem checkedLoop_error {digits : Bytes} {fault : IntegerFault}
    (h : checkedLoop negative digits value = .error fault) :
    fault = .outOfRange ∨ fault = .invalidDigit ∧ ∃ byte ∈ digits, ¬ IsDecimal byte := by
  induction digits generalizing value with
  | nil => cases h
  | cons byte digits ih =>
    rw [checkedLoop] at h
    rcases digit_cases byte with ⟨hgt, hnot⟩ | ⟨hle, -⟩
    · rw [if_pos hgt] at h
      cases h
      exact Or.inr ⟨rfl, byte, List.mem_cons_self .., hnot⟩
    rw [if_neg hle] at h
    generalize (checkedMul value T.ten).bind _ = next at h
    cases next with
    | none =>
      cases h
      exact Or.inl rfl
    | some next =>
      refine (ih h).imp_right fun ⟨hfault, other, hmem, hnot⟩ => ⟨hfault, other, ?_, hnot⟩
      exact List.mem_cons_of_mem _ hmem

/-- What has few digits fits the type, in either direction. -/
theorem fits_of_lt {n m : ℕ} (hsigns : T.Signs negative) (hn : n ≤ T.alwaysFits) (hm : m < 10 ^ n) :
    T.min ≤ withSign negative m ∧ withSign negative m ≤ T.max := by
  have hmaxNat := T.maxNat_ge
  have hpow : 10 ^ n ≤ T.maxNat :=
    (Nat.pow_le_pow_right (by decide) hn).trans (Nat.pow_log_le_self 10 (by omega))
  have hmin₀ := T.min_nonpos
  have hmax : T.max = T.maxNat := rfl
  unfold withSign
  cases negative with
  | true =>
    have hmin := T.min_le_neg (hsigns rfl)
    simp only [if_true]
    omega
  | false =>
    simp only [Bool.false_eq_true, if_false]
    omega

/-- **The loop without checks** is the one with them, of few enough digits. -/
theorem uncheckedLoop_eq {digits : Bytes} {n : ℕ} (hsigns : T.Signs negative)
    (hvalue : value.val = withSign negative acc) (hacc : acc < 10 ^ n)
    (hfits : n + digits.length ≤ T.alwaysFits) :
    uncheckedLoop negative digits value = checkedLoop negative digits value := by
  induction digits generalizing value acc n with
  | nil => rfl
  | cons byte digits ih =>
    rw [List.length_cons] at hfits
    rw [uncheckedLoop, checkedLoop]
    rcases digit_cases byte with ⟨hgt, -⟩ | ⟨hle, hdecimal, hdigit⟩
    · rw [if_pos hgt, if_pos hgt]
    rw [if_neg hle, if_neg hle]
    have hten : (byte - 48).toNat < 10 := by
      rw [hdigit]
      have := hdecimal.2
      omega
    generalize byte - 48 = digit at hten ⊢
    have hlt := Numeral.step_lt hacc hten
    obtain ⟨next, -, hnext⟩ := ofInt_withSign (fits_of_lt (n := n + 1) hsigns (by omega) hlt)
    obtain ⟨scaled, hmul, hadd⟩ := checked_step hten hvalue hnext
    rw [hmul, Option.bind_some, hadd]
    simp only [unchecked, orOutOfRange, Option.getDM_some, pure_bind, hadd]
    exact ih hnext hlt (by omega)

/-! ## The parsers -/

theorem parseDigits_eq (T : IntType) (hsigns : T.Signs negative) {digits : Bytes} (hne : digits ≠ []) :
    T.parseDigits negative digits = checkedLoop negative digits T.zero := by
  have hzero : T.zero.val = withSign negative 0 := by cases negative <;> rfl
  rw [parseDigits, if_neg (by rwa [List.isEmpty_iff])]
  split_ifs with hfits
  · exact uncheckedLoop_eq (n := 0) hsigns hzero (by decide) (by rwa [Nat.zero_add])
  · rfl

theorem parseDigits_eq_ok (hsigns : T.Signs negative) {digits : Bytes} {x : T.Value} :
    T.parseDigits negative digits = .ok x ↔
      Decimal digits ∧ x.val = withSign negative (decimal digits) := by
  by_cases hne : digits = []
  · subst hne
    exact ⟨fun h => (by cases h), fun h => absurd rfl h.1.1⟩
  have hzero : T.zero.val = withSign negative 0 := by cases negative <;> rfl
  rw [parseDigits_eq T hsigns hne, checkedLoop_eq_ok hzero, decimal_eq, Decimal, and_assoc]
  exact (and_iff_right hne).symm

theorem parseDigits_ne_overflow (hsigns : T.Signs negative) (digits : Bytes) :
    T.parseDigits negative digits ≠ .error .overflow := by
  by_cases hne : digits = []
  · subst hne
    exact fun h => (by cases h)
  · rw [parseDigits_eq T hsigns hne]
    intro h
    rcases checkedLoop_error h with h | h
    · cases h
    · cases h.1

theorem not_decimal_cons {byte : UInt8} {rest : Bytes} (h : ¬ IsDecimal byte) :
    ¬ Decimal (byte :: rest) := fun hdecimal => h (hdecimal.2 byte (List.mem_cons_self ..))

theorem denotes_plus {rest : Bytes} {v : ℤ} :
    T.Denotes (43 :: rest) v ↔ Decimal rest ∧ v = withSign false (decimal rest) := by
  constructor
  · intro h
    cases h with
    | bare hdecimal => exact absurd hdecimal (not_decimal_cons (by decide))
    | plus hdecimal => exact ⟨hdecimal, rfl⟩
  · rintro ⟨hdecimal, rfl⟩
    exact .plus hdecimal

theorem denotes_minus (hsigned : T.signed = true) {rest : Bytes} {v : ℤ} :
    T.Denotes (45 :: rest) v ↔ Decimal rest ∧ v = withSign true (decimal rest) := by
  constructor
  · intro h
    cases h with
    | bare hdecimal => exact absurd hdecimal (not_decimal_cons (by decide))
    | minus _ hdecimal => exact ⟨hdecimal, rfl⟩
  · rintro ⟨hdecimal, rfl⟩
    exact .minus hsigned hdecimal

theorem denotes_bare {bytes : Bytes} {v : ℤ} (hplus : ∀ rest, bytes ≠ 43 :: rest)
    (hminus : T.signed = true → ∀ rest, bytes ≠ 45 :: rest) :
    T.Denotes bytes v ↔ Decimal bytes ∧ v = withSign false (decimal bytes) := by
  constructor
  · intro h
    cases h with
    | bare hdecimal => exact ⟨hdecimal, rfl⟩
    | plus => exact absurd rfl (hplus _)
    | minus hsigned => exact absurd rfl (hminus hsigned _)
  · rintro ⟨hdecimal, rfl⟩
    exact .bare hdecimal

/-- The sign and the digits that a parser takes the bytes for. -/
theorem parser_reads (T : IntType) (bytes : Bytes) : ∃ negative digits, T.Signs negative ∧
    T.parser bytes = T.parseDigits negative digits ∧
    ∀ v, T.Denotes bytes v ↔ Decimal digits ∧ v = withSign negative (decimal digits) := by
  unfold parser
  cases hsigned : T.signed with
  | true =>
    rw [if_pos rfl]
    unfold signedParser
    split
    · exact ⟨true, _, fun _ => hsigned, rfl, fun _ => denotes_minus hsigned⟩
    · exact ⟨false, _, nofun, rfl, fun _ => denotes_plus⟩
    · rename_i hminus hplus
      exact ⟨false, _, nofun, rfl, fun _ => denotes_bare hplus fun _ => hminus⟩
  | false =>
    rw [if_neg Bool.false_ne_true]
    unfold unsignedParser
    split
    · exact ⟨false, _, nofun, rfl, fun _ => denotes_plus⟩
    · rename_i hplus
      exact ⟨false, _, nofun, rfl, fun _ =>
        denotes_bare hplus fun h => absurd (hsigned.symm.trans h) Bool.false_ne_true⟩

/-- **A parser** accepts what denotes an integer of its type. -/
theorem parser_eq_ok {bytes : Bytes} {x : T.Value} :
    T.parser bytes = .ok x ↔ T.Denotes bytes x.val := by
  obtain ⟨negative, digits, hsigns, hparser, hdenotes⟩ := T.parser_reads bytes
  rw [hparser, parseDigits_eq_ok hsigns, hdenotes]

theorem parser_ne_overflow (T : IntType) (bytes : Bytes) : T.parser bytes ≠ .error .overflow := by
  obtain ⟨negative, digits, hsigns, hparser, -⟩ := T.parser_reads bytes
  rw [hparser]
  exact parseDigits_ne_overflow hsigns digits

/-! ## Spellings -/

/-- The digits of a number, behind some zeros. -/
def decimalDigits (zeros n : ℕ) : Bytes :=
  List.replicate zeros 48 ++ 48 :: ((Nat.digits 10 n).map fun digit => UInt8.ofNat (48 + digit)).reverse

theorem decimal_decimalDigits (zeros n : ℕ) :
    Decimal (decimalDigits zeros n) ∧ decimal (decimalDigits zeros n) = n := by
  have hlt : ∀ digit ∈ Nat.digits 10 n, digit < 10 := fun _ h => Nat.digits_lt_base (by decide) h
  have hbyte : ∀ digit ∈ Nat.digits 10 n, (UInt8.ofNat (48 + digit)).toNat = 48 + digit := by
    intro digit hmem
    have := hlt digit hmem
    rw [UInt8.toNat_ofNat', Nat.mod_eq_of_lt (by omega)]
  constructor
  · refine ⟨by simp [decimalDigits], fun byte hmem => ?_⟩
    simp only [decimalDigits, List.mem_append, List.mem_replicate, List.mem_cons, List.mem_reverse,
      List.mem_map] at hmem
    rcases hmem with ⟨-, rfl⟩ | rfl | ⟨digit, hdigit, rfl⟩
    · decide
    · decide
    · have := hlt digit hdigit
      rw [IsDecimal, hbyte digit hdigit]
      omega
  · have hdigits : (Nat.digits 10 n).map ((fun byte : UInt8 => byte.toNat - 48) ∘
        fun digit => UInt8.ofNat (48 + digit)) = Nat.digits 10 n := by
      conv_rhs => rw [← List.map_id (Nat.digits 10 n)]
      refine List.map_congr_left fun digit hmem => ?_
      rw [Function.comp_apply, hbyte digit hmem, Nat.add_sub_cancel_left, id]
    have hzeros : (List.replicate zeros (48 : UInt8)).map (fun byte => byte.toNat - 48) =
        List.replicate zeros 0 := by rw [List.map_replicate]; rfl
    rw [decimal, decimalDigits, List.reverse_append, List.reverse_cons, List.reverse_reverse,
      List.reverse_replicate, List.map_append, List.map_append, List.map_map, hdigits, hzeros,
      Nat.ofDigits_append_replicate_zero]
    exact (Nat.ofDigits_append_zero _).trans (Nat.ofDigits_digits 10 n)

/-- A value, with as many leading zeros as there are and one more. -/
def spell (zeros : ℕ) (v : ℤ) : Bytes :=
  if v < 0 then 45 :: decimalDigits zeros v.natAbs else decimalDigits zeros v.natAbs

/-- **Every value** is parsed from its decimal, however many zeros it begins with. -/
theorem parser_spell (x : T.Value) (zeros : ℕ) : T.parser (spell zeros x.val) = .ok x := by
  obtain ⟨hdecimal, hvalue⟩ := decimal_decimalDigits zeros x.val.natAbs
  rw [parser_eq_ok, spell]
  split_ifs with hneg
  · have hsigned : T.signed = true := by
      by_contra hunsigned
      have hmin : T.min = 0 := if_neg hunsigned
      have := x.2.1
      omega
    have h := Denotes.minus hsigned hdecimal
    rwa [hvalue, show -(x.val.natAbs : ℤ) = x.val by omega] at h
  · have h := Denotes.bare (T := T) hdecimal
    rwa [hvalue, show (x.val.natAbs : ℤ) = x.val by omega] at h

end IntType

/-! ## The types of the language -/

/-- The width of `usize` and `isize`. -/
inductive PointerWidth
  | w16
  | w32
  | w64
  deriving DecidableEq, Repr

/-- The types that `impl_from_bytes_integer` gives a parser. -/
inductive IntegerType
  | i8
  | i16
  | i32
  | i64
  | i128
  | isize
  | u8
  | u16
  | u32
  | u64
  | u128
  | usize
  deriving DecidableEq, Repr

namespace IntType

def isize : PointerWidth → IntType
  | .w16 => i16
  | .w32 => i32
  | .w64 => i64

def usize : PointerWidth → IntType
  | .w16 => u16
  | .w32 => u32
  | .w64 => u64

end IntType

namespace IntegerType

variable (pointer : PointerWidth)

/-- The layout of a type. -/
def layout : IntegerType → IntType
  | i8 => .i8
  | i16 => .i16
  | i32 => .i32
  | i64 => .i64
  | i128 => .i128
  | isize => .isize pointer
  | u8 => .u8
  | u16 => .u16
  | u32 => .u32
  | u64 => .u64
  | u128 => .u128
  | usize => .usize pointer

def parseI8 : Bytes → Except IntegerFault IntType.i8.Value := IntType.i8.signedParser
def parseI16 : Bytes → Except IntegerFault IntType.i16.Value := IntType.i16.signedParser
def parseI32 : Bytes → Except IntegerFault IntType.i32.Value := IntType.i32.signedParser
def parseI64 : Bytes → Except IntegerFault IntType.i64.Value := IntType.i64.signedParser
def parseI128 : Bytes → Except IntegerFault IntType.i128.Value := IntType.i128.signedParser
def parseIsize : Bytes → Except IntegerFault (IntType.isize pointer).Value :=
  (IntType.isize pointer).signedParser
def parseU8 : Bytes → Except IntegerFault IntType.u8.Value := IntType.u8.unsignedParser
def parseU16 : Bytes → Except IntegerFault IntType.u16.Value := IntType.u16.unsignedParser
def parseU32 : Bytes → Except IntegerFault IntType.u32.Value := IntType.u32.unsignedParser
def parseU64 : Bytes → Except IntegerFault IntType.u64.Value := IntType.u64.unsignedParser
def parseU128 : Bytes → Except IntegerFault IntType.u128.Value := IntType.u128.unsignedParser
def parseUsize : Bytes → Except IntegerFault (IntType.usize pointer).Value :=
  (IntType.usize pointer).unsignedParser

/-- `FromBytes::from_bytes`. -/
def fromBytes : (type : IntegerType) → Bytes → Except IntegerFault (type.layout pointer).Value
  | i8 => parseI8
  | i16 => parseI16
  | i32 => parseI32
  | i64 => parseI64
  | i128 => parseI128
  | isize => parseIsize pointer
  | u8 => parseU8
  | u16 => parseU16
  | u32 => parseU32
  | u64 => parseU64
  | u128 => parseU128
  | usize => parseUsize pointer

theorem fromBytes_eq (type : IntegerType) (bytes : Bytes) :
    type.fromBytes pointer bytes = (type.layout pointer).parser bytes := by
  cases type with
  | isize => cases pointer <;> rfl
  | usize => cases pointer <;> rfl
  | _ => rfl

open IntType in
/-- **Integer fields are parsed exactly**: what is accepted denotes the value, and every value in
    range that is denoted is accepted.  No unchecked operation leaves the type, and the loop of the
    short fields does what the checked loop does. -/
theorem fromBytes_exact (type : IntegerType) :
    let T := type.layout pointer
    (∀ (bytes : Bytes) (v : ℤ), (∃ x : T.Value, type.fromBytes pointer bytes = .ok x ∧ x.val = v) ↔
        T.Denotes bytes v ∧ T.min ≤ v ∧ v ≤ T.max) ∧
      (∀ bytes, type.fromBytes pointer bytes ≠ .error .overflow) ∧
      (∀ (x : T.Value) (zeros : ℕ), type.fromBytes pointer (spell zeros x.val) = .ok x) ∧
      ∀ (negative : Bool) (digits : Bytes), T.Signs negative → digits.length ≤ T.alwaysFits →
        uncheckedLoop negative digits T.zero = checkedLoop negative digits T.zero := by
  intro T
  simp only [fromBytes_eq]
  refine ⟨fun bytes v => ⟨?_, ?_⟩, fun bytes => T.parser_ne_overflow bytes,
    fun x zeros => parser_spell x zeros, fun negative digits hsigns hfits => ?_⟩
  · rintro ⟨x, hparser, rfl⟩
    exact ⟨parser_eq_ok.1 hparser, x.2⟩
  · rintro ⟨hdenotes, hrange⟩
    exact ⟨⟨v, hrange⟩, parser_eq_ok.2 hdenotes, rfl⟩
  · have hzero : T.zero.val = withSign negative 0 := by cases negative <;> rfl
    exact uncheckedLoop_eq (n := 0) hsigns hzero (by decide) (by rwa [Nat.zero_add])

open IntType in
/-- Two digits of an `i8`, downwards. -/
theorem fromBytes_exact_i8 :
    uncheckedLoop true [57, 57] IntType.i8.zero = checkedLoop true [57, 57] IntType.i8.zero :=
  (fromBytes_exact .w64 .i8).2.2.2 true [57, 57] (fun _ => rfl) (by decide)

end IntegerType

end Coseva
