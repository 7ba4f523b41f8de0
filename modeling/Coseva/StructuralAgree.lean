/-
  Coseva — the structural kernel computes the meaning of RFC 4180: a record that it
  accepts is the record at the front of its bytes, and it declines what is malformed.
-/
import Coseva.Structural
import Coseva.Rfc4180

namespace Coseva

namespace Structural

open Rfc

/-! ## Masks -/

section masks

variable {input : Bytes}

theorem getLsbD_joined (byte : UInt8) (i : ℕ) :
    (joined byte (input.take 32) (slice input 32 64)).getLsbD i = true ↔
      i < 64 ∧ input[i]? = some byte := by
  have hbit : ∀ {l : Bytes} {j : ℕ}, (csvMask byte l).getLsbD j = true ↔ j < 32 ∧ l[j]? = some byte := by
    intro l j
    rw [csvMask, Bits.getLsbD_ofMask, Bool.and_eq_true, decide_eq_true_iff]
    refine and_congr_right fun _ => ?_
    cases l[j]? with
    | none => simp
    | some b => simp
  rw [joined, BitVec.getLsbD_or, BitVec.getLsbD_shiftLeft, BitVec.getLsbD_setWidth,
    BitVec.getLsbD_setWidth, Bool.or_eq_true]
  simp only [Bool.and_eq_true, decide_eq_true_iff, hbit, Bool.not_eq_true', decide_eq_false_iff_not]
  rcases Nat.lt_or_ge i 32 with hlow | hhigh
  · rw [List.getElem?_take_of_lt hlow]
    constructor
    · rintro (⟨hi, -, hbyte⟩ | ⟨⟨-, hge⟩, -⟩)
      · exact ⟨hi, hbyte⟩
      · exact absurd hlow hge
    · exact fun ⟨hi, hbyte⟩ => Or.inl ⟨hi, hlow, hbyte⟩
  · have hget : i < 64 → (slice input 32 64)[i - 32]? = input[i]? := by
      intro hi
      rw [slice, List.getElem?_drop, List.getElem?_take_of_lt (by omega), Nat.add_sub_cancel' hhigh]
    constructor
    · rintro (⟨-, hlow, -⟩ | ⟨⟨hi, -⟩, -, -, hbyte⟩)
      · omega
      · exact ⟨hi, hget hi ▸ hbyte⟩
    · exact fun ⟨hi, hbyte⟩ => Or.inr ⟨⟨hi, by omega⟩, by omega, by omega, (hget hi).symm ▸ hbyte⟩

theorem getLsbD_quoteParity (quotes : BitVec 64) {i : ℕ} (hi : i < 64) :
    (quoteParity quotes).getLsbD i = Bits.parityBefore quotes.getLsbD (i + 1) :=
  (Bits.parityOf_one (x := quotes)).double.double.double.double.double.double.whole hi

end masks

/-! ## Fields -/

/-- A copy has appended bytes to a buffer, or has been declined. -/
def Appends (bytes : Bytes) (appended : Bytes → Prop) : Except Stop Bytes → Prop
  | .ok bytes' => ∃ out, bytes' = bytes ++ out ∧ appended out
  | .error stop => stop = .declined

section fields

variable {input : Bytes} (hlen : 64 ≤ input.length)

theorem range_ok {start stop : ℕ} (h : start ≤ stop) (h' : stop ≤ input.length) :
    range input start stop = .ok (slice input start stop) := if_pos ⟨h, h'⟩

theorem bitAt_ok {bit : ℕ} (h : bit < 64) : bitAt bit = .ok (1#64 <<< bit) := if_pos h

theorem getLsbD_pair {a b : ℕ} (ha : a < 64) (hb : b < 64) (i : ℕ) :
    (1#64 <<< a ||| 1#64 <<< b).getLsbD i = true ↔ i = a ∨ i = b := by
  rw [BitVec.getLsbD_or, Bits.getLsbD_one_shiftLeft ha, Bits.getLsbD_one_shiftLeft hb,
    Bool.or_eq_true, decide_eq_true_iff, decide_eq_true_iff]

theorem getLsbD_without {x y : BitVec 64} {i : ℕ} :
    (x &&& ~~~y).getLsbD i = true ↔ x.getLsbD i = true ∧ ¬ y.getLsbD i = true := by
  rw [BitVec.getLsbD_and, BitVec.getLsbD_not, Bool.and_eq_true, Bool.and_eq_true,
    decide_eq_true_iff, Bool.not_eq_true', Bool.not_eq_true]
  exact ⟨fun h => ⟨h.1, h.2.2⟩, fun h => ⟨h.1, BitVec.lt_of_getLsbD h.1, h.2⟩⟩

theorem Appends.imp {bytes : Bytes} {appended appended' : Bytes → Prop} {r : Except Stop Bytes}
    (h : Appends bytes appended r) (himp : ∀ out, appended out → appended' out) :
    Appends bytes appended' r := by
  cases r with
  | error => exact h
  | ok =>
    obtain ⟨out, heq, hout⟩ := h
    exact ⟨out, heq, himp out hout⟩

/-- What has been appended in front. -/
theorem Appends.behind {bytes out : Bytes} {appended : Bytes → Prop} {r : Except Stop Bytes}
    (h : Appends (bytes ++ out) appended r) :
    Appends bytes (fun out' => ∃ more, out' = out ++ more ∧ appended more) r := by
  cases r with
  | error => exact h
  | ok =>
    obtain ⟨more, rfl, h⟩ := h
    exact ⟨out ++ more, List.append_assoc .., more, rfl, h⟩

include hlen in
/-- **The doubled quotes of a field**, by its mask. -/
theorem appendEscaped_appends {closing : ℕ} (hclosing : closing < 64) (fuel : ℕ) :
    ∀ (bytes : Bytes) (segmentStart : ℕ) (escaped : BitVec 64), segmentStart ≤ closing →
      closing < segmentStart + fuel →
      (∀ i, escaped.getLsbD i = true ↔ segmentStart ≤ i ∧ i < closing ∧ input[i]? = some 34) →
      Appends bytes (fun out => ∀ field,
          Leads input .quoted field segmentStart .quoted (field ++ out) closing)
        (appendEscaped input closing fuel bytes segmentStart escaped) := by
  induction fuel with
  | zero => exact fun _ _ _ hle hfuel => absurd hle (by omega)
  | succ fuel ih =>
    intro bytes segmentStart escaped hle hfuel hbits
    rw [appendEscaped]
    by_cases hzero : escaped = 0
    · rw [if_pos hzero, range_ok hle (by omega)]
      refine ⟨_, rfl, fun field => leads_quoted hle (by omega) fun i hfrom hlt hquote => ?_⟩
      have hset := (hbits i).2 ⟨hfrom, hlt, hquote⟩
      rw [hzero] at hset
      cases hset.symm.trans BitVec.getLsbD_zero
    · have hfirst := (hbits _).1 (BitVec.getLsbD_true_ctz_of_ne_zero hzero)
      have hlower : ∀ i, escaped.getLsbD i = true → escaped.ctz.toNat ≤ i :=
        fun i => Bits.ctz_le_of_getLsbD
      simp only
      generalize escaped.ctz.toNat = first at hfirst hlower ⊢
      obtain ⟨hfrom, hlt, hquote⟩ := hfirst
      rw [if_neg hzero, bitAt_ok (by omega), bitAt_ok (show first + 1 < 64 by omega)]
      have hpair := getLsbD_pair (show first < 64 by omega) (show first + 1 < 64 by omega)
      simp only [bind, Except.bind]
      generalize 1#64 <<< first ||| 1#64 <<< (first + 1) = pair at hpair ⊢
      by_cases hboth : escaped &&& pair = pair
      · rw [if_neg (not_not.2 hboth), range_ok hfrom (by omega)]
        obtain ⟨-, hlt', hquote'⟩ :=
          (hbits _).1 (Bits.and_eq_right_iff.1 hboth (first + 1) ((hpair _).2 (Or.inr rfl)))
        -- behind the pair
        have hnext := ih (bytes ++ slice input segmentStart first ++ [34]) (first + 1 + 1)
          (escaped &&& ~~~pair) (by omega) (by omega) fun i => by
            rw [getLsbD_without, hbits, hpair]
            constructor
            · rintro ⟨⟨hfrom, hi, hq⟩, hne⟩
              have := hlower i ((hbits i).2 ⟨hfrom, hi, hq⟩)
              exact ⟨by omega, hi, hq⟩
            · rintro ⟨hi, hi', hq⟩
              exact ⟨⟨by omega, hi', hq⟩, by omega⟩
        change Appends bytes _ (appendEscaped input closing fuel
          (bytes ++ slice input segmentStart first ++ [34]) (first + 1 + 1) (escaped &&& ~~~pair))
        rw [List.append_assoc] at hnext ⊢
        refine hnext.behind.imp ?_
        rintro - ⟨more, rfl, hmore⟩ field
        have hsegment : Leads input .quoted field segmentStart .quoted
            (field ++ slice input segmentStart first) first := by
          refine leads_quoted hfrom (by omega) fun i hi hi' hq => ?_
          have := hlower i ((hbits i).2 ⟨hi, by omega, hq⟩)
          omega
        have hrest := hmore (field ++ slice input segmentStart first ++ [34])
        rw [← List.append_assoc, ← List.append_assoc]
        exact (hsegment.trans (leads_doubled hquote hquote')).trans hrest
      · rw [if_pos hboth]
        rfl

/-- Reading a field from its start comes to its end: a bare field, or one that a quote has
    closed. -/
def ReadsField (input : Bytes) (fieldStart fieldEnd : ℕ) (out : Bytes) : Prop :=
  out = slice input fieldStart fieldEnd ∧
      Leads input .start [] fieldStart .unquoted out fieldEnd ∨
    Leads input .start [] fieldStart .closed out fieldEnd

/-- The mask has the quotes of the field from `fieldStart`, which ends in front of `stop`. -/
structure FieldMask (input : Bytes) (quotes : BitVec 64) (fieldStart fieldEnd stop : ℕ)
    (mask : BitVec 64) : Prop where
  mem : ∀ i, mask.getLsbD i = true ↔ fieldStart ≤ i ∧ i < stop ∧ input[i]? = some 34
  start_le : fieldStart ≤ fieldEnd
  end_le : fieldEnd ≤ stop
  stop_lt : stop < 64
  /-- a carriage return may be between the field and its separator -/
  behind : ∀ i, fieldEnd ≤ i → i ≤ stop → input[i]? ≠ some 34
  even : Bits.parityBefore quotes.getLsbD fieldStart = Bits.parityBefore quotes.getLsbD stop

variable {quotes mask : BitVec 64} {fieldStart fieldEnd stop : ℕ}
  (hquotes : ∀ i, quotes.getLsbD i = true ↔ i < 64 ∧ input[i]? = some 34)

include hquotes in
/-- A field has two quotes when it has one. -/
theorem FieldMask.lt_closing (h : FieldMask input quotes fieldStart fieldEnd stop mask)
    (hopening : input[fieldStart]? = some 34) : fieldStart + 1 < fieldEnd := by
  have hlt : fieldStart < fieldEnd := by
    refine Nat.lt_of_not_le fun hle => h.behind fieldStart hle ?_ hopening
    exact h.start_le.trans h.end_le
  refine Nat.lt_of_not_le fun hle => ?_
  -- a single quote is odd
  have hstop := h.end_le
  have hstop' := h.stop_lt
  have heven := h.even
  rw [Bits.parityBefore_eq (show fieldStart + 1 ≤ stop by omega) fun k hk hk' => ?_,
    Bits.parityBefore, (hquotes fieldStart).2 ⟨by omega, hopening⟩] at heven
  · cases hparity : Bits.parityBefore quotes.getLsbD fieldStart <;> rw [hparity] at heven <;> cases heven
  · rw [← Bool.not_eq_true, hquotes]
    exact fun hquote => h.behind k (by omega) hk'.le hquote.2

include hlen hquotes in
/-- **A quoted field**, by its mask. -/
theorem appendMaskedQuotedField_appends (checkFieldLimit : Bool) (maxFieldBytes : ℕ) (bytes : Bytes)
    (h : FieldMask input quotes fieldStart fieldEnd stop mask) (hne : mask ≠ 0) :
    Appends bytes (fun out => Leads input .start [] fieldStart .closed out fieldEnd)
      (appendMaskedQuotedField checkFieldLimit input bytes fieldStart fieldEnd mask maxFieldBytes) := by
  have hend := h.end_le
  have hstop := h.stop_lt
  -- the mask lies in front of the field's end
  have hwithin : ∀ i, mask.getLsbD i = true → fieldStart ≤ i ∧ i < fieldEnd ∧ input[i]? = some 34 := by
    intro i hi
    obtain ⟨hfrom, hlt, hquote⟩ := (h.mem i).1 hi
    exact ⟨hfrom, Nat.lt_of_not_le fun hle => h.behind i hle hlt.le hquote, hquote⟩
  have hfirst := hwithin _ (BitVec.getLsbD_true_ctz_of_ne_zero hne)
  obtain ⟨closing, rfl⟩ : ∃ closing, fieldEnd = closing + 1 := ⟨fieldEnd - 1, by omega⟩
  have houter := getLsbD_pair (show fieldStart < 64 by omega) (show closing < 64 by omega)
  unfold appendMaskedQuotedField
  rw [if_neg (Nat.succ_ne_zero closing), Nat.add_sub_cancel]
  simp only [bitAt_ok (show fieldStart < 64 by omega), bitAt_ok (show closing < 64 by omega), bind,
    Except.bind]
  generalize 1#64 <<< fieldStart ||| 1#64 <<< closing = outer at houter ⊢
  by_cases hboth : mask &&& outer = outer
  swap
  · rw [if_neg fun heq => hboth (by rw [heq, BitVec.and_self]), if_pos hboth]
    rfl
  have hset := Bits.and_eq_right_iff.1 hboth
  obtain ⟨-, -, hopening⟩ := hwithin _ (hset _ ((houter _).2 (Or.inl rfl)))
  obtain ⟨-, -, hclosing⟩ := hwithin _ (hset _ ((houter _).2 (Or.inr rfl)))
  have hlt := h.lt_closing hquotes hopening
  rw [range_ok (show fieldStart + 1 ≤ closing by omega) (by omega)]
  simp only
  have hdone : ∀ {out}, Leads input .quoted [] (fieldStart + 1) .quoted out closing →
      Leads input .start [] fieldStart .closed out (closing + 1) :=
    fun hinner => ((leads_opening hopening).trans hinner).trans (leads_closing hclosing)
  by_cases hlong : tooLong checkFieldLimit maxFieldBytes (slice input (fieldStart + 1) closing) = true
  · rw [if_pos hlong, if_neg (not_not.2 hboth)]
    split_ifs
    · rfl
    · rfl
  rw [if_neg hlong, if_neg (not_not.2 hboth)]
  split_ifs with heq
  · refine ⟨_, rfl, hdone ?_⟩
    refine leads_quoted (by omega) (by omega) fun i hi hi' hquote => ?_
    have := (houter i).1 (heq ▸ (h.mem i).2 ⟨by omega, by omega, hquote⟩)
    omega
  · refine (appendEscaped_appends hlen (by omega) 65 bytes (fieldStart + 1) (mask &&& ~~~outer)
      (by omega) (by omega) fun i => ?_).imp fun out hout => hdone (hout [])
    rw [getLsbD_without, houter, h.mem]
    constructor
    · rintro ⟨hi, hnot⟩
      have := (hwithin i ((h.mem i).2 hi)).2.1
      exact ⟨by omega, by omega, hi.2.2⟩
    · rintro ⟨hi, hi', hquote⟩
      exact ⟨⟨by omega, by omega, hquote⟩, by omega⟩

include hlen hquotes in
/-- **A field**, by its mask. -/
theorem appendStructuralField_appends (checkFieldLimit : Bool) (maxFieldBytes : ℕ) (bytes : Bytes)
    (h : FieldMask input quotes fieldStart fieldEnd stop mask)
    (hplain : (∀ i, fieldStart ≤ i → i < stop → input[i]? ≠ some 34) →
      ∀ i, fieldStart ≤ i → i < stop → input[i]? ≠ some 44 ∧ input[i]? ≠ some 10) :
    Appends bytes (ReadsField input fieldStart fieldEnd)
      (appendStructuralField checkFieldLimit input bytes fieldStart fieldEnd mask maxFieldBytes) := by
  unfold appendStructuralField
  by_cases hzero : mask = 0
  swap
  · rw [if_pos hzero]
    exact (appendMaskedQuotedField_appends hlen hquotes checkFieldLimit maxFieldBytes bytes h
      hzero).imp fun _ => Or.inr
  have hstart := h.start_le
  have hend := h.end_le
  have hstop := h.stop_lt
  rw [if_neg (not_not.2 hzero), range_ok hstart (by omega)]
  simp only [bind, Except.bind]
  have hnone : ∀ i, fieldStart ≤ i → i < stop → input[i]? ≠ some 34 := by
    intro i hi hi' hquote
    have hset := (h.mem i).2 ⟨hi, hi', hquote⟩
    rw [hzero] at hset
    cases hset.symm.trans BitVec.getLsbD_zero
  split_ifs
  · rfl
  refine ⟨_, rfl, Or.inl ⟨rfl, ?_⟩⟩
  obtain ⟨byte, hbyte⟩ : ∃ byte, input[fieldStart]? = some byte :=
    ⟨_, List.getElem?_eq_getElem (by omega)⟩
  have hbare := hplain hnone
  have hfirst : byte ≠ 34 := by
    rintro rfl
    rcases Nat.lt_or_ge fieldStart stop with hlt | hge
    · exact hnone fieldStart le_rfl hlt hbyte
    · exact h.behind fieldStart (by omega) (by omega) hbyte
  refine (leads_start hbyte hfirst).trans ?_
  have hread : Leads input .unquoted [] fieldStart .unquoted ([] ++ slice input fieldStart fieldEnd)
      fieldEnd := by
    refine leads_bare hstart (by omega) fun i hi hi' byte hbyte => ⟨?_, ?_, ?_⟩
    · rintro rfl
      exact hnone i hi (by omega) hbyte
    · rintro rfl
      exact (hbare i hi (by omega)).1 hbyte
    · rintro rfl
      exact (hbare i hi (by omega)).2 hbyte
  exact hread

end fields

/-! ## Records -/

/-- A field behind the others of a storage. -/
def pushField (parts : Bytes × List ℕ) (field : Bytes) : Bytes × List ℕ :=
  (parts.1 ++ field, parts.2 ++ [(parts.1 ++ field).length])

/-- Fields behind the others of a storage. -/
def pushFields (parts : Bytes × List ℕ) (fields : List Bytes) : Bytes × List ℕ :=
  fields.foldl pushField parts

theorem pushFields_append (parts : Bytes × List ℕ) (fields fields' : List Bytes) :
    pushFields parts (fields ++ fields') = pushFields (pushFields parts fields) fields' :=
  List.foldl_append

theorem ReadsField.mode {input : Bytes} {fieldStart fieldEnd : ℕ} {out : Bytes}
    (h : ReadsField input fieldStart fieldEnd out) :
    ∃ mode : Mode, mode.Ends ∧ Leads input .start [] fieldStart mode out fieldEnd ∧
      (mode = .unquoted → out = slice input fieldStart fieldEnd) := by
  rcases h with ⟨heq, hleads⟩ | hleads
  · exact ⟨.unquoted, Or.inl rfl, hleads, fun _ => heq⟩
  · exact ⟨.closed, Or.inr rfl, hleads, nofun⟩

/-- The masks of the first 64 bytes, and the first record end outside quotes. -/
structure Masks (input : Bytes) (commas quotes outside recordEnds : BitVec 64) : Prop where
  commaAt : ∀ i, commas.getLsbD i = true ↔ i < 64 ∧ input[i]? = some 44
  quoteAt : ∀ i, quotes.getLsbD i = true ↔ i < 64 ∧ input[i]? = some 34
  outsideAt : ∀ i, outside.getLsbD i = true ↔ i < 64 ∧ Bits.parityBefore quotes.getLsbD (i + 1) = false
  recordEndAt : ∀ i, recordEnds.getLsbD i = true ↔
    (i < 64 ∧ input[i]? = some 10) ∧ outside.getLsbD i = true

section record

variable {input : Bytes} (hlen : 64 ≤ input.length) {commas quotes outside recordEnds : BitVec 64}
  (hmasks : Masks input commas quotes outside recordEnds)

include hmasks in
/-- A byte that is no quote is outside quotes when the quotes in front of it are even. -/
theorem Masks.outside_iff {i : ℕ} (hi : i < 64) (hnot : input[i]? ≠ some 34) :
    outside.getLsbD i = true ↔ Bits.parityBefore quotes.getLsbD i = false := by
  have hquote : quotes.getLsbD i = false := by
    rw [← Bool.not_eq_true, hmasks.quoteAt]
    exact fun h => hnot h.2
  rw [hmasks.outsideAt, Bits.parityBefore, hquote, Bool.xor_false]
  exact and_iff_right hi

/-- The bit behind which a field starts: its first byte's, or that of the separator in front. -/
def MarkerAt (input : Bytes) (marker : BitVec 64) (fieldStart : ℕ) : Prop :=
  ∃ k < 64, (∀ i, marker.getLsbD i = decide (i = k)) ∧
    (k = fieldStart ∨ k + 1 = fieldStart ∧ input[k]? ≠ some 34)

include hmasks in
theorem Masks.fieldQuotes_mem {marker endBit : BitVec 64} {fieldStart stop : ℕ}
    (hmarker : MarkerAt input marker fieldStart) (hstop : stop < 64)
    (hend : ∀ i, endBit.getLsbD i = decide (i = stop)) (i : ℕ) :
    (fieldQuotes quotes marker endBit).getLsbD i = true ↔
      fieldStart ≤ i ∧ i < stop ∧ input[i]? = some 34 := by
  obtain ⟨k, hk, hsingle, hat⟩ := hmarker
  rw [fieldQuotes, getLsbD_without, BitVec.getLsbD_and, Bool.and_eq_true, hmasks.quoteAt,
    Bits.getLsbD_sub_one_of_single hstop hend, Bits.getLsbD_sub_one_of_single hk hsingle,
    decide_eq_true_iff, decide_eq_true_iff]
  constructor
  · rintro ⟨⟨⟨-, hquote⟩, hlt⟩, hge⟩
    refine ⟨?_, hlt, hquote⟩
    rcases hat with rfl | ⟨hnext, hnot⟩
    · omega
    · have : i ≠ k := by
        rintro rfl
        exact hnot hquote
      omega
  · rintro ⟨hfrom, hlt, hquote⟩
    exact ⟨⟨⟨by omega, hquote⟩, hlt⟩, by omega⟩

variable {recordEnd fieldStart : ℕ} {separators marker : BitVec 64}

/-- Between two fields of the record that ends at `recordEnd`. -/
structure Between (input : Bytes) (quotes : BitVec 64) (recordEnd fieldStart : ℕ)
    (separators marker : BitVec 64) : Prop where
  le : fieldStart ≤ recordEnd
  even : Bits.parityBefore quotes.getLsbD fieldStart = false
  marker : MarkerAt input marker fieldStart
  separators : ∀ i, separators.getLsbD i = true ↔ fieldStart ≤ i ∧ i < recordEnd ∧
    input[i]? = some 44 ∧ Bits.parityBefore quotes.getLsbD i = false

/-- The record ends at the first line feed outside quotes. -/
structure EndsAt (input : Bytes) (quotes : BitVec 64) (recordEnd : ℕ) : Prop where
  lt : recordEnd < 64
  lineFeed : input[recordEnd]? = some 10
  even : Bits.parityBefore quotes.getLsbD recordEnd = false
  first : ∀ i < recordEnd, input[i]? = some 10 → Bits.parityBefore quotes.getLsbD i = true

include hmasks in
theorem Masks.endsAt (hne : recordEnds ≠ 0) : EndsAt input quotes recordEnds.ctz.toNat := by
  obtain ⟨⟨hlt, hfeed⟩, hout⟩ := (hmasks.recordEndAt _).1 (BitVec.getLsbD_true_ctz_of_ne_zero hne)
  refine ⟨hlt, hfeed, (hmasks.outside_iff hlt (by rw [hfeed]; decide)).1 hout, fun i hi hbyte => ?_⟩
  rw [← Bool.not_eq_false]
  intro heven
  have hset := (hmasks.recordEndAt i).2 ⟨⟨by omega, hbyte⟩,
    (hmasks.outside_iff (by omega) (by rw [hbyte]; decide)).2 heven⟩
  have := Bits.ctz_le_of_getLsbD hset
  omega

/-- A field without quotes has no separator. -/
theorem Between.plain (h : Between input quotes recordEnd fieldStart separators marker)
    (hends : EndsAt input quotes recordEnd)
    (hquotes : ∀ i, quotes.getLsbD i = true ↔ i < 64 ∧ input[i]? = some 34) {stop : ℕ}
    (hstop : stop ≤ recordEnd) (hfirst : ∀ i, separators.getLsbD i = true → stop ≤ i)
    (hnone : ∀ i, fieldStart ≤ i → i < stop → input[i]? ≠ some 34) :
    ∀ i, fieldStart ≤ i → i < stop → input[i]? ≠ some 44 ∧ input[i]? ≠ some 10 := by
  intro i hi hi'
  have heven : Bits.parityBefore quotes.getLsbD i = false := by
    rw [Bits.parityBefore_eq hi fun k hk hk' => ?_, h.even]
    rw [← Bool.not_eq_true, hquotes]
    exact fun hquote => hnone k hk (by omega) hquote.2
  refine ⟨fun hcomma => ?_, fun hfeed => ?_⟩
  · have := hfirst i ((h.separators i).2 ⟨hi, by omega, hcomma, heven⟩)
    omega
  · have := hends.first i (by omega) hfeed
    rw [heven] at this
    cases this

include hlen hmasks in
/-- **The loop over the separators** reads the fields in front of the last one. -/
theorem appendFields_reads (hends : EndsAt input quotes recordEnd) (checkFieldLimit : Bool)
    (maxFieldBytes fuel : ℕ) : ∀ (separators marker : BitVec 64) (fieldStart : ℕ) (bytes : Bytes)
      (ends : List ℕ), Between input quotes recordEnd fieldStart separators marker →
      recordEnd < fieldStart + fuel →
      match appendFields checkFieldLimit input quotes maxFieldBytes fuel separators fieldStart marker
        bytes ends with
      | .error stop => stop = .declined
      | .ok (fieldStart', marker', bytes', ends') =>
        Between input quotes recordEnd fieldStart' 0 marker' ∧ ∃ more,
          (bytes', ends') = pushFields (bytes, ends) more ∧
          ∀ fields, run .start fields [] fieldStart (input.drop fieldStart) =
            run .start (fields ++ more) [] fieldStart' (input.drop fieldStart') := by
  induction fuel with
  | zero => exact fun _ _ _ _ _ h hfuel => absurd h.le (by omega)
  | succ fuel ih =>
    intro separators marker fieldStart bytes ends h hfuel
    rw [appendFields]
    by_cases hzero : separators = 0
    · rw [if_pos hzero]
      subst hzero
      exact ⟨h, [], rfl, fun fields => by rw [List.append_nil]⟩
    rw [if_neg hzero]
    simp only [bind, Except.bind]
    have hlowest := Bits.getLsbD_lowest hzero
    have hcleared := Bits.getLsbD_clearLowest hzero
    have hfirst : ∀ i, separators.getLsbD i = true → separators.ctz.toNat ≤ i :=
      fun i => Bits.ctz_le_of_getLsbD
    obtain ⟨hfrom, hlt, hcomma, heven⟩ :=
      (h.separators _).1 (BitVec.getLsbD_true_ctz_of_ne_zero hzero)
    generalize separators.ctz.toNat = separator at hlowest hcleared hfirst hfrom hlt hcomma heven ⊢
    have hrecordEnd := hends.lt
    have hnot : input[separator]? ≠ some 34 := by
      rw [hcomma]
      decide
    have hmask : FieldMask input quotes fieldStart separator separator
        (fieldQuotes quotes marker (separators &&& -separators)) := by
      refine ⟨hmasks.fieldQuotes_mem h.marker (by omega) hlowest, hfrom, le_rfl, by omega,
        fun i hi hi' => ?_, h.even.trans heven.symm⟩
      rwa [show i = separator by omega]
    have hfield := appendStructuralField_appends hlen hmasks.quoteAt checkFieldLimit maxFieldBytes
      bytes hmask (h.plain hends hmasks.quoteAt hlt.le hfirst)
    generalize appendStructuralField checkFieldLimit input bytes fieldStart separator _ _ = r at hfield ⊢
    cases r with
    | error stop => exact hfield
    | ok bytes' =>
      obtain ⟨out, rfl, hreads⟩ := hfield
      have hnext : Between input quotes recordEnd (separator + 1) (separators &&& (separators - 1#64))
          (separators &&& -separators) := by
        refine ⟨hlt, ?_, ⟨separator, by omega, hlowest, Or.inr ⟨rfl, hnot⟩⟩, fun i => ?_⟩
        · have := (hmasks.outside_iff (show separator < 64 by omega) hnot).2 heven
          exact ((hmasks.outsideAt separator).1 this).2
        · rw [hcleared, Bool.and_eq_true, decide_eq_true_iff, h.separators]
          constructor
          · rintro ⟨⟨-, hi, hbyte⟩, hgt⟩
            exact ⟨hgt, hi, hbyte⟩
          · rintro ⟨hgt, hi, hbyte⟩
            exact ⟨⟨by omega, hi, hbyte⟩, hgt⟩
      have hrest := ih _ _ _ (bytes ++ out) (ends ++ [(bytes ++ out).length]) hnext (by omega)
      simp only
      generalize appendFields checkFieldLimit input quotes maxFieldBytes fuel _ _ _ _ _ = r' at hrest ⊢
      rcases r' with stop | ⟨fieldStart', marker', bytes', ends'⟩
      · exact hrest
      obtain ⟨hbetween, more, hpushed, hmore⟩ := hrest
      refine ⟨hbetween, out :: more, hpushed, fun fields => ?_⟩
      obtain ⟨mode, hmode, hleads, -⟩ := hreads.mode
      rw [hleads fields, drop_eq_cons hcomma, run_comma hmode, hmore, List.append_assoc]
      rfl

/-- Where the last field of a record ends. -/
def lastEnd (input : Bytes) (fieldStart recordEnd : ℕ) : ℕ :=
  if recordEnd > fieldStart ∧ byteAt input (recordEnd - 1) = 13 then recordEnd - 1 else recordEnd

theorem ite_lastEnd : (if recordEnd > fieldStart ∧ byteAt input (recordEnd - 1) = 13
    then recordEnd - 1 else recordEnd) = lastEnd input fieldStart recordEnd := rfl

/-- The last field ends at the line feed, or at the carriage return in front of it. -/
theorem lastEnd_cases (fieldStart : ℕ) (hin : recordEnd < input.length) :
    (∃ last, lastEnd input fieldStart recordEnd = last ∧ last + 1 = recordEnd ∧
        fieldStart ≤ last ∧ input[last]? = some 13) ∨
      lastEnd input fieldStart recordEnd = recordEnd ∧
        (fieldStart < recordEnd → input[recordEnd - 1]? ≠ some 13) := by
  have hbyte : input[recordEnd - 1]? = some (byteAt input (recordEnd - 1)) := by
    have hin' : recordEnd - 1 < input.length := by omega
    rw [byteAt, List.getD_eq_getElem?_getD, List.getElem?_eq_getElem hin', Option.getD_some]
  unfold lastEnd
  split_ifs with hcr
  · rw [hcr.2] at hbyte
    exact Or.inl ⟨recordEnd - 1, rfl, by omega, by omega, hbyte⟩
  · refine Or.inr ⟨rfl, fun hlt hreturn => hcr ⟨hlt, ?_⟩⟩
    exact Option.some.inj (hbyte.symm.trans hreturn)

include hlen hmasks in
theorem Masks.lastField (hends : EndsAt input quotes recordEnd)
    (h : Between input quotes recordEnd fieldStart separators marker) {endBit : BitVec 64}
    (hend : ∀ i, endBit.getLsbD i = decide (i = recordEnd)) :
    FieldMask input quotes fieldStart (lastEnd input fieldStart recordEnd) recordEnd
      (fieldQuotes quotes marker endBit) := by
  have hfeed : input[recordEnd]? ≠ some 34 := by
    rw [hends.lineFeed]
    decide
  have hmem := hmasks.fieldQuotes_mem h.marker hends.lt hend
  have heven := h.even.trans hends.even.symm
  have hlt := hends.lt
  rcases lastEnd_cases fieldStart (show recordEnd < input.length by omega) with
    ⟨last, heq, hnext, hfrom, hreturn⟩ | ⟨heq, -⟩
  · rw [heq]
    refine ⟨hmem, hfrom, by omega, hends.lt, fun i hi hi' => ?_, heven⟩
    rcases hi'.eq_or_lt with rfl | hlt
    · exact hfeed
    · rw [show i = last by omega, hreturn]
      decide
  · rw [heq]
    refine ⟨hmem, h.le, le_rfl, hends.lt, fun i hi hi' => ?_, heven⟩
    rwa [show i = recordEnd by omega]

/-- The record ends behind its last field. -/
theorem run_last (hfeed : input[recordEnd]? = some 10) {out : Bytes}
    (hreads : ReadsField input fieldStart (lastEnd input fieldStart recordEnd) out)
    (fields : List Bytes) : run .start fields [] fieldStart (input.drop fieldStart) =
      .record (fields ++ [out]) (recordEnd + 1) := by
  obtain ⟨mode, hmode, hleads, hslice⟩ := hreads.mode
  have hin := (List.getElem?_eq_some_iff.1 hfeed).1
  rw [hleads fields]
  rcases lastEnd_cases fieldStart hin with ⟨last, heq, rfl, -, hreturn⟩ | ⟨heq, hno⟩
  · rw [heq, drop_eq_cons hreturn, drop_eq_cons hfeed, run_crLf hmode]
  · rw [heq] at hslice ⊢
    rw [drop_eq_cons hfeed, run_lineFeed hmode]
    intro hunquoted hreturn
    rw [hslice hunquoted, List.getLast?_eq_getElem?, slice_length (by omega), slice,
      List.getElem?_drop, List.getElem?_take] at hreturn
    split_ifs at hreturn with hbefore
    refine hno (by omega) ?_
    rwa [show fieldStart + (recordEnd - fieldStart - 1) = recordEnd - 1 by omega] at hreturn

include hlen hmasks in
/-- **The fields of a record** that ends in the block. -/
theorem appendRecord_reads (hne : recordEnds ≠ 0) (checkFieldLimit : Bool) (maxFieldBytes : ℕ)
    (bytes : Bytes) (ends : List ℕ) :
    match appendRecord checkFieldLimit input commas quotes outside recordEnds maxFieldBytes bytes
      ends with
    | .error stop => stop = .declined
    | .ok parts => ∃ fields, parts = pushFields (bytes, ends) fields ∧
        Rfc.record input = .record fields (recordEnds.ctz.toNat + 1) := by
  have hends := hmasks.endsAt hne
  have hlowest := Bits.getLsbD_lowest hne
  have hbelow := Bits.getLsbD_lowest_sub_one hne
  unfold appendRecord
  simp only [bind, Except.bind]
  generalize recordEnds.ctz.toNat = recordEnd at hends hlowest hbelow ⊢
  have hlt := hends.lt
  have hstart : Between input quotes recordEnd 0
      (commas &&& outside &&& ((recordEnds &&& -recordEnds) - 1#64)) 1 := by
    refine ⟨Nat.zero_le _, rfl, ⟨0, by decide, fun i => ?_, Or.inl rfl⟩, fun i => ?_⟩
    · exact Bits.getLsbD_one_shiftLeft (w := 64) (k := 0) (by decide) i
    · rw [BitVec.getLsbD_and, BitVec.getLsbD_and, hbelow, Bool.and_eq_true, Bool.and_eq_true,
        hmasks.commaAt, decide_eq_true_iff]
      constructor
      · rintro ⟨⟨⟨hi, hcomma⟩, hout⟩, hbefore⟩
        refine ⟨Nat.zero_le _, hbefore, hcomma, ?_⟩
        exact (hmasks.outside_iff hi (by rw [hcomma]; decide)).1 hout
      · rintro ⟨-, hbefore, hcomma, heven⟩
        refine ⟨⟨⟨by omega, hcomma⟩, ?_⟩, hbefore⟩
        exact (hmasks.outside_iff (by omega) (by rw [hcomma]; decide)).2 heven
  have hfields := appendFields_reads hlen hmasks hends checkFieldLimit maxFieldBytes 65 _ _ 0 bytes
    ends hstart (by omega)
  generalize appendFields checkFieldLimit input quotes maxFieldBytes 65 _ 0 1 bytes ends = r at hfields ⊢
  rcases r with stop | ⟨fieldStart, marker, bytes', ends'⟩
  · exact hfields
  obtain ⟨hbetween, more, hpushed, hmore⟩ := hfields
  simp only [ite_lastEnd]
  have hfield := appendStructuralField_appends hlen hmasks.quoteAt checkFieldLimit maxFieldBytes
    bytes' (hmasks.lastField hlen hends hbetween hlowest)
    (hbetween.plain hends hmasks.quoteAt le_rfl fun i hi => by
      cases (BitVec.getLsbD_zero (w := 64) (i := i)).symm.trans hi)
  generalize appendStructuralField checkFieldLimit input bytes' fieldStart _ _ _ = r at hfield ⊢
  cases r with
  | error stop => exact hfield
  | ok bytes'' =>
    obtain ⟨out, rfl, hreads⟩ := hfield
    have hlast := run_last hends.lineFeed hreads more
    refine ⟨more ++ [out], ?_, ?_⟩
    · rw [pushFields_append, ← hpushed]
      rfl
    · have hfront := hmore []
      rw [List.drop_zero, List.nil_append] at hfront
      rw [Rfc.record, hfront, hlast]

end record

/-! ## The kernel -/

theorem masks_joined (input : Bytes) :
    let first := input.take 32
    let second := slice input 32 64
    Masks input (joined 44 first second) (joined 34 first second)
      (~~~(quoteParity (joined 34 first second)))
      (joined 10 first second &&& ~~~(quoteParity (joined 34 first second))) := by
  refine ⟨getLsbD_joined 44, getLsbD_joined 34, fun i => ?_, fun i => ?_⟩
  · rw [BitVec.getLsbD_not, Bool.and_eq_true, decide_eq_true_iff, Bool.not_eq_true']
    refine and_congr_right fun hi => ?_
    rw [getLsbD_quoteParity _ hi]
  · rw [BitVec.getLsbD_and, Bool.and_eq_true, getLsbD_joined]

/-- What the kernel leaves when it declines. -/
def Output.cleared (output : Output) : Output := { output with bytes := [], ends := [] }

/-- **The structural kernel**: a record that it accepts is the one at the front of the bytes. -/
theorem tryParseDefaultQuotedRecordStructural_reads
    (avx2 checkFieldLimit preservePrefix certifyAscii : Bool) (input : Bytes) (output : Output)
    (maxFieldBytes : ℕ) :
    match tryParseDefaultQuotedRecordStructural avx2 checkFieldLimit preservePrefix certifyAscii input
      output maxFieldBytes with
    | (.error stop, output') => stop = .declined ∧
        (output' = output ∨ preservePrefix = false ∧ output' = output.cleared)
    | (.ok (next, _), output') => ∃ fields, Rfc.record input = .record fields next ∧ next ≤ 64 ∧
        (output'.bytes, output'.ends) = pushFields (output.bytes, output.ends) fields ∧
        (output'.textValidity = output.textValidity ∨ output'.textValidity = .ascii ∧
          asciiBlock (input.take 32) = true ∧ asciiBlock (slice input 32 64) = true) := by
  unfold tryParseDefaultQuotedRecordStructural
  by_cases havx2 : (!avx2) = true
  · rw [if_pos havx2]
    exact ⟨rfl, Or.inl rfl⟩
  by_cases hshort : input.length < 64
  · rw [if_neg havx2, if_pos hshort]
    exact ⟨rfl, Or.inl rfl⟩
  rw [if_neg havx2, if_neg hshort]
  have hlen : 64 ≤ input.length := Nat.le_of_not_lt hshort
  have hmasks := masks_joined input
  simp only at hmasks ⊢
  by_cases hquotes : (certifyAscii && joined 34 (input.take 32) (slice input 32 64) == 0) = true
  · rw [if_pos hquotes]
    exact ⟨rfl, Or.inl rfl⟩
  rw [if_neg hquotes]
  by_cases hnone : joined 10 (input.take 32) (slice input 32 64) &&&
      ~~~quoteParity (joined 34 (input.take 32) (slice input 32 64)) = 0
  · rw [if_pos hnone]
    exact ⟨rfl, Or.inl rfl⟩
  rw [if_neg hnone]
  have hrecord := appendRecord_reads hlen hmasks hnone checkFieldLimit maxFieldBytes output.bytes
    output.ends
  have hlt := Bits.ctz_lt hnone
  generalize appendRecord checkFieldLimit input _ _ _ _ maxFieldBytes output.bytes output.ends = r
    at hrecord ⊢
  rcases r with stop | ⟨bytes, ends⟩
  · refine ⟨hrecord, ?_⟩
    unfold rollback
    split_ifs with hpreserve
    · exact Or.inl rfl
    · exact Or.inr ⟨Bool.eq_false_iff.2 hpreserve, rfl⟩
  · obtain ⟨fields, hparts, hrfc⟩ := hrecord
    refine ⟨fields, hrfc, hlt, hparts, ?_⟩
    simp only
    split_ifs with hascii
    · rw [Bool.and_eq_true, Bool.and_eq_true] at hascii
      exact Or.inr ⟨rfl, hascii.1.2, hascii.2⟩
    · exact Or.inl rfl

end Structural

end Coseva
