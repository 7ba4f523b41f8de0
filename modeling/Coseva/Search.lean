/-
  Coseva — literal search (`find_literal` of `coseva_unsafe/src/search.rs`).

  Needles of eight bytes or more are searched by two-way matching: the right part
  from the critical position on, then the left part, with the last byte of the
  needle as an anchor that is searched by blocks.

  * `maximalSuffix` and `twoWayLoop`: the loops, with a fuel; an access out of
    range, a subtraction below zero and an exhausted fuel are faults;
  * `maximalSuffix_ok`: the scan for a maximal suffix finds it;
  * `twoWayLoop_ok`: the two-way loop, by the invariant `Reached`;
  * `find_literal_correct`: the search returns the first occurrence.
-/
import Coseva.Quoting
import Coseva.Engine
import Coseva.Lib.Mask
import Coseva.Lib.TwoWay

namespace Coseva

/-- Why a search does not return. -/
inductive SearchFault
  /-- an index or a range outside a slice -/
  | range
  /-- a subtraction below zero -/
  | underflow
  /-- a loop that goes on -/
  | fuel
  deriving DecidableEq, Repr

namespace Search

/-- `TWO_WAY_MIN_NEEDLE_BYTES`. -/
def twoWayMinNeedleBytes : ℕ := 8

/-- `AVX2_BLOCK_BYTES` and `NEON_BLOCK_BYTES`. -/
def blockBytes : ℕ := 32

/-- `bytes[index]`. -/
def index (bytes : Bytes) (i : ℕ) : Except SearchFault UInt8 :=
  match bytes[i]? with
  | some byte => .ok byte
  | none => .error .range

/-- `bytes[start..stop]`. -/
def range (bytes : Bytes) (start stop : ℕ) : Except SearchFault Bytes :=
  if start ≤ stop ∧ stop ≤ bytes.length then .ok (slice bytes start stop) else .error .range

/-- `a - b`. -/
def subtract (a b : ℕ) : Except SearchFault ℕ := if b ≤ a then .ok (a - b) else .error .underflow

/-- The vector units that a machine may have. -/
inductive Lanes
  | scalar
  | avx2
  | neon
  deriving DecidableEq, Repr

/-- `AVX2_FIND_MIN_BYTES` and `NEON_BLOCK_BYTES`: the inputs that are searched by blocks. -/
def Lanes.usesBlocks : Lanes → ℕ → Bool
  | .scalar, _ => false
  | .avx2, length => 128 ≤ length
  | .neon, length => blockBytes ≤ length

/-- `find_literal_anchor`. -/
def findLiteralAnchor (lanes : Lanes) (needle : UInt8) (input : Bytes) : Option ℕ :=
  if lanes.usesBlocks input.length then Mask.findBlocks (· == needle) blockBytes input
  else input.findIdx? (· == needle)

/-- The loop of `maximal_suffix`. -/
def maximalSuffixLoop (needle : Bytes) (reverseOrder : Bool) :
    ℕ → ℕ → ℕ → ℕ → ℕ → Except SearchFault (ℕ × ℕ)
  | 0, _, _, _, _ => .error .fuel
  | fuel + 1, pos, candidate, offset, period =>
    match needle[candidate + offset]? with
    | none => .ok (pos, period)
    | some next => do
      let current ← index needle (pos + offset)
      let candidateIsSmaller : Bool := if reverseOrder then next > current else next < current
      if candidateIsSmaller then
        let candidate := candidate + (offset + 1)
        let period ← subtract candidate pos
        maximalSuffixLoop needle reverseOrder fuel pos candidate 0 period
      else if next = current then
        if offset + 1 = period then
          maximalSuffixLoop needle reverseOrder fuel pos (candidate + (offset + 1)) 0 period
        else
          maximalSuffixLoop needle reverseOrder fuel pos candidate (offset + 1) period
      else
        maximalSuffixLoop needle reverseOrder fuel candidate (candidate + 1) 0 1

/-- `maximal_suffix`. -/
def maximalSuffix (fuel : ℕ) (needle : Bytes) (reverseOrder : Bool) : Except SearchFault (ℕ × ℕ) :=
  maximalSuffixLoop needle reverseOrder fuel 0 1 0 1

/-- The loop of `two_way_find` to the right, over the `count` bytes of the needle from `i`. -/
def matchRight (needle input : Bytes) (base : ℕ) : ℕ → ℕ → Except SearchFault ℕ
  | i, 0 => .ok i
  | i, count + 1 => do
    if (← index needle i) = (← index input (base + i)) then
      matchRight needle input base (i + 1) count
    else .ok i

/-- The loop of `two_way_find` to the left, from `j` down to `backLimit`: whether it meets a
    mismatch. -/
def matchLeft (needle input : Bytes) (base backLimit : ℕ) : ℕ → Except SearchFault Bool
  | 0 => .ok false
  | j + 1 =>
    if backLimit < j + 1 then do
      if (← index needle j) ≠ (← index input (base + j)) then .ok true
      else matchLeft needle input base backLimit j
    else .ok false

/-- What `two_way_find` computes before its loop. -/
structure Plan where
  critPos : ℕ
  shortPeriod : Bool
  period : ℕ
  anchor : ℕ
  lastStart : ℕ
  deriving DecidableEq, Repr

/-- The front of `two_way_find`. -/
def plan (fuel : ℕ) (needle input : Bytes) : Except SearchFault Plan := do
  let ascendingSuffix ← maximalSuffix fuel needle false
  let descendingSuffix ← maximalSuffix fuel needle true
  let (critPos, critPeriod) :=
    if ascendingSuffix.1 > descendingSuffix.1 then ascendingSuffix else descendingSuffix
  let left ← range needle 0 critPos
  let behind ← range needle critPeriod (critPeriod + critPos)
  let shortPeriod := left == behind
  let period ←
    if shortPeriod then pure critPeriod
    else do pure (max critPos (← subtract needle.length critPos) + 1)
  let anchor ← subtract needle.length 1
  let lastStart ← subtract input.length needle.length
  pure ⟨critPos, shortPeriod, period, anchor, lastStart⟩

/-- The loop of `two_way_find`. -/
def twoWayLoop (lanes : Lanes) (needle input : Bytes) (p : Plan) :
    ℕ → ℕ → ℕ → Except SearchFault (Option ℕ)
  | 0, _, _ => .error .fuel
  | fuel + 1, base, memory =>
    if p.lastStart < base then .ok none
    else do
      let byte ← index needle p.anchor
      let rest ← range input (base + p.anchor) input.length
      match findLiteralAnchor lanes byte rest with
      | none => .ok none
      | some skip => do
        let memory := if skip > 0 then 0 else memory
        let base := base + skip
        let start := if p.shortPeriod then max p.critPos memory else p.critPos
        let i ← matchRight needle input base start (needle.length - start)
        if i < needle.length then do
          let matched ← subtract i p.critPos
          twoWayLoop lanes needle input p fuel (base + (matched + 1))
            (if p.shortPeriod then 0 else memory)
        else do
          let backLimit := if p.shortPeriod then memory else 0
          let mismatch ← matchLeft needle input base backLimit p.critPos
          if mismatch then do
            let memory ← if p.shortPeriod then subtract needle.length p.period else pure memory
            twoWayLoop lanes needle input p fuel (base + p.period) memory
          else .ok (some base)

/-- `two_way_find`. -/
def twoWayFind (lanes : Lanes) (fuel : ℕ) (needle input : Bytes) :
    Except SearchFault (Option ℕ) := do
  let p ← plan fuel needle input
  twoWayLoop lanes needle input p fuel 0 0

/-- `find_literal`. -/
def findLiteral (lanes : Lanes) (fuel : ℕ) (needle input : Bytes) :
    Except SearchFault (Option ℕ) :=
  match needle with
  | [] => .ok (some 0)
  | [first] => .ok (find1 first input)
  | _ =>
    if needle.length > input.length then .ok none
    else if needle.length < twoWayMinNeedleBytes then
      .ok ((List.range (input.length - needle.length + 1)).find? fun start =>
        slice input start (start + needle.length) == needle)
    else twoWayFind lanes fuel needle input

/-! ## Words of bytes -/

/-- The letters of a byte string. -/
def letters (bytes : Bytes) (i : ℕ) : UInt8 := bytes.getD i 0

theorem index_ok {bytes : Bytes} {i : ℕ} (h : i < bytes.length) :
    index bytes i = .ok (letters bytes i) := by
  rw [index, letters, List.getElem?_eq_getElem h, List.getD_eq_getElem _ _ h]

theorem range_ok {bytes : Bytes} {start stop : ℕ} (h : start ≤ stop) (h' : stop ≤ bytes.length) :
    range bytes start stop = .ok (slice bytes start stop) := if_pos ⟨h, h'⟩

theorem ok_bind {α β : Type} (a : α) (f : α → Except SearchFault β) :
    (Except.ok a >>= f) = f a := rfl

theorem subtract_ok {a b : ℕ} (h : b ≤ a) : subtract a b = .ok (a - b) := if_pos h

/-- Two ranges are equal when their letters are. -/
theorem slice_eq_iff {a b : Bytes} {i j count : ℕ} (hi : i + count ≤ a.length)
    (hj : j + count ≤ b.length) :
    slice a i (i + count) = slice b j (j + count) ↔
      ∀ e < count, letters a (i + e) = letters b (j + e) := by
  have hget : ∀ (bytes : Bytes) (start e : ℕ), start + count ≤ bytes.length → e < count →
      (slice bytes start (start + count))[e]? = some (letters bytes (start + e)) := by
    intro bytes start e hlen he
    rw [slice, List.getElem?_drop, List.getElem?_take_of_lt (by omega),
      List.getElem?_eq_getElem (by omega), letters, List.getD_eq_getElem _ _ (by omega)]
  have hlength : ∀ (bytes : Bytes) (start : ℕ), start + count ≤ bytes.length →
      (slice bytes start (start + count)).length = count := by
    intro bytes start hlen
    rw [slice, List.length_drop, List.length_take]
    omega
  constructor
  · intro heq e he
    have hat := congrArg (·[e]?) heq
    simp only [hget a i e hi he, hget b j e hj he, Option.some.injEq] at hat
    exact hat
  · intro heq
    apply List.ext_getElem?
    intro e
    rcases Nat.lt_or_ge e count with he | he
    · rw [hget a i e hi he, hget b j e hj he, heq e he]
    · rw [List.getElem?_eq_none (by rw [hlength a i hi]; exact he),
        List.getElem?_eq_none (by rw [hlength b j hj]; exact he)]

/-- The needle is at an offset of the input. -/
def OccursAt (needle input : Bytes) (start : ℕ) : Prop :=
  start ≤ input.length ∧ needle <+: input.drop start

/-- The answer of a search: the first offset at which the needle is. -/
def IsFirst (needle input : Bytes) : Option ℕ → Prop
  | none => ∀ start, ¬ OccursAt needle input start
  | some start => OccursAt needle input start ∧ ∀ earlier < start, ¬ OccursAt needle input earlier

theorem occursAt_iff {needle input : Bytes} {start : ℕ} :
    OccursAt needle input start ↔
      start + needle.length ≤ input.length ∧
        slice input start (start + needle.length) = needle := by
  unfold OccursAt slice
  rw [List.prefix_iff_eq_take, List.drop_take, Nat.add_sub_cancel_left]
  constructor
  · rintro ⟨hle, heq⟩
    have hlen := congrArg List.length heq
    rw [List.length_take, List.length_drop] at hlen
    exact ⟨by omega, heq.symm⟩
  · rintro ⟨hle, heq⟩
    exact ⟨by omega, heq.symm⟩

theorem occursAt_iff_occurs {needle input : Bytes} {start : ℕ} :
    OccursAt needle input start ↔
      TwoWay.Occurs (letters needle) needle.length (letters input) input.length start := by
  rw [occursAt_iff, TwoWay.Occurs]
  refine and_congr_right fun hle => ?_
  have hself : slice needle 0 (0 + needle.length) = needle := by
    rw [slice, Nat.zero_add, List.take_length, List.drop_zero]
  have hiff := slice_eq_iff (a := needle) (i := 0) (Nat.zero_add _).le hle
  rw [hself] at hiff
  rw [eq_comm, hiff]
  simp only [Nat.zero_add]

/-! ## The maximal suffix -/

instance byteOrder : IsStrictTotalOrder UInt8 (· < ·) where
  irrefl := UInt8.lt_irrefl
  trans _ _ _ := UInt8.lt_trans
  trichotomous _ _ h h' := UInt8.le_antisymm (UInt8.not_lt.1 h') (UInt8.not_lt.1 h)

/-- The scan goes on from any state of its invariant to its end: each step moves the
    positions that it compares forward. -/
theorem maximalSuffixLoop_ok {lt : UInt8 → UInt8 → Prop} [IsStrictTotalOrder UInt8 lt]
    {needle : Bytes} {reverseOrder : Bool}
    (hlt : ∀ next current : UInt8,
      (if reverseOrder then decide (next > current) else decide (next < current)) = true ↔
        lt next current)
    (fuel : ℕ) {pos candidate offset period : ℕ}
    (hs : TwoWay.Scan lt (letters needle) needle.length pos candidate offset period)
    (hfuel : 2 * needle.length ≤ fuel + (pos + candidate + offset)) :
    ∃ found, maximalSuffixLoop needle reverseOrder fuel pos candidate offset period = .ok found ∧
      TwoWay.Suffix lt (letters needle) needle.length found.1 found.2 := by
  have hpos : pos < candidate := hs.pos_lt
  have hbound := hs.bound
  have hoffset := hs.offset_lt
  have hperiod := hs.period_le
  induction fuel generalizing pos candidate offset period with
  | zero => omega
  | succ fuel ih =>
    rw [maximalSuffixLoop]
    rcases hget : needle[candidate + offset]? with _ | next
    · exact ⟨_, rfl, hs.exit (List.getElem?_eq_none_iff.1 hget)⟩
    obtain ⟨hin, hnext⟩ := List.getElem?_eq_some_iff.1 hget
    obtain rfl : letters needle (candidate + offset) = next := by
      rw [letters, List.getD_eq_getElem _ _ hin, hnext]
    simp only [index_ok (show pos + offset < needle.length by omega), ok_bind]
    by_cases hsmaller : lt (letters needle (candidate + offset)) (letters needle (pos + offset))
    · rw [if_pos ((hlt _ _).2 hsmaller), subtract_ok (by omega), ok_bind]
      exact ih (hs.smaller hin hsmaller) (by omega) (by omega) hin (by omega) (by omega)
    rw [if_neg fun h => hsmaller ((hlt _ _).1 h)]
    by_cases heq : letters needle (candidate + offset) = letters needle (pos + offset)
    · rw [if_pos heq]
      by_cases hwrap : offset + 1 = period
      · rw [if_pos hwrap]
        exact ih (hs.wrap hin heq hwrap) (by omega) (by omega) hin (by omega) (by omega)
      · rw [if_neg hwrap]
        exact ih (hs.equal hin heq hwrap) (by omega) hpos hin (by omega) hperiod
    · rw [if_neg heq]
      have hlarger : lt (letters needle (pos + offset)) (letters needle (candidate + offset)) :=
        by_contra fun h => heq (Std.Trichotomous.trichotomous _ _ hsmaller h)
      exact ih (hs.larger hin hlarger) (by omega) (by omega) (by omega) Nat.one_pos le_rfl

/-- `maximal_suffix` finds the maximal suffix with its least period. -/
theorem maximalSuffix_ok (lt : UInt8 → UInt8 → Prop) [IsStrictTotalOrder UInt8 lt]
    {needle : Bytes} (reverseOrder : Bool)
    (hlt : ∀ next current : UInt8,
      (if reverseOrder then decide (next > current) else decide (next < current)) = true ↔
        lt next current)
    (hneedle : 0 < needle.length) {fuel : ℕ} (hfuel : 2 * needle.length ≤ fuel) :
    ∃ found, maximalSuffix fuel needle reverseOrder = .ok found ∧
      TwoWay.Suffix lt (letters needle) needle.length found.1 found.2 :=
  maximalSuffixLoop_ok hlt fuel (TwoWay.Scan.start hneedle) (by omega)

/-! ## The two sides of an alignment -/

section alignment

variable {needle input : Bytes} {base : ℕ}

variable (needle input base) in
theorem matchRight_ok (count : ℕ) {i : ℕ} (hneedle : i + count ≤ needle.length)
    (hinput : base + needle.length ≤ input.length) :
    ∃ stop, matchRight needle input base i count = .ok stop ∧ i ≤ stop ∧ stop ≤ i + count ∧
      (∀ j, i ≤ j → j < stop → letters needle j = letters input (base + j)) ∧
      (stop < i + count → letters needle stop ≠ letters input (base + stop)) := by
  induction count generalizing i with
  | zero => exact ⟨i, rfl, le_rfl, le_rfl, fun j hj hj' => by omega, fun h => by omega⟩
  | succ count ih =>
    simp only [matchRight, index_ok (show i < needle.length by omega),
      index_ok (show base + i < input.length by omega), ok_bind]
    by_cases heq : letters needle i = letters input (base + i)
    · rw [if_pos heq]
      obtain ⟨stop, hrun, hge, hle, hmatch, hne⟩ := ih (i := i + 1) (by omega)
      refine ⟨stop, hrun, by omega, by omega, fun j hj hj' => ?_, fun h => hne (by omega)⟩
      rcases Nat.eq_or_lt_of_le hj with rfl | hlt
      · exact heq
      · exact hmatch j hlt hj'
    · rw [if_neg heq]
      exact ⟨i, rfl, le_rfl, by omega, fun j hj hj' => by omega, fun _ => heq⟩

variable (needle input base) in
theorem matchLeft_ok (backLimit j : ℕ) (hneedle : j ≤ needle.length)
    (hinput : base + needle.length ≤ input.length) :
    ∃ mismatch, matchLeft needle input base backLimit j = .ok mismatch ∧
      (mismatch = false ↔
        ∀ i, backLimit ≤ i → i < j → letters needle i = letters input (base + i)) := by
  induction j with
  | zero => exact ⟨false, rfl, fun _ i _ hi => by omega, fun _ => rfl⟩
  | succ j ih =>
    rw [matchLeft]
    by_cases hlimit : backLimit < j + 1
    · simp only [if_pos hlimit, index_ok (show j < needle.length by omega),
        index_ok (show base + j < input.length by omega), ok_bind]
      by_cases heq : letters needle j = letters input (base + j)
      · rw [if_neg (not_not.2 heq)]
        obtain ⟨mismatch, hrun, hiff⟩ := ih (by omega)
        refine ⟨mismatch, hrun, hiff.trans ⟨fun h i hi hij => ?_, fun h i hi hij => ?_⟩⟩
        · rcases Nat.lt_succ_iff_lt_or_eq.1 hij with hlt | rfl
          · exact h i hi hlt
          · exact heq
        · exact h i hi (by omega)
      · rw [if_pos heq]
        exact ⟨true, rfl, nofun, fun h => absurd (h j (by omega) j.lt_succ_self) heq⟩
    · rw [if_neg hlimit]
      exact ⟨false, rfl, fun _ i hi hij => by omega, fun _ => rfl⟩

/-- The anchor search finds the first byte that is the anchor. -/
theorem findLiteralAnchor_eq (lanes : Lanes) (byte : UInt8) (rest : Bytes) :
    findLiteralAnchor lanes byte rest = rest.findIdx? (· == byte) := by
  rw [findLiteralAnchor, Mask.findBlocks_eq, ite_self]

end alignment

/-! ## The plan -/

/-- What the loop relies on: a critical position, and a period that is the one of the whole
    needle or larger than both sides. -/
structure Plan.Sound (p : Plan) (needle input : Bytes) : Prop where
  critical : ∃ critPeriod, TwoWay.Critical (letters needle) needle.length p.critPos critPeriod ∧
    (p.shortPeriod = true →
      p.period = critPeriod ∧ TwoWay.PeriodFrom (letters needle) needle.length 0 critPeriod) ∧
    (p.shortPeriod = false → p.period = max p.critPos (needle.length - p.critPos) + 1 ∧
      ¬ TwoWay.PeriodFrom (letters needle) needle.length 0 critPeriod)
  anchor : p.anchor + 1 = needle.length
  lastStart : p.lastStart + needle.length = input.length

/-- The comparison of the left part decides whether the period behind the critical position
    is one of the needle. -/
theorem slice_eq_iff_periodFrom {needle : Bytes} {critPos critPeriod : ℕ}
    (h : TwoWay.Critical (letters needle) needle.length critPos critPeriod) :
    slice needle 0 critPos = slice needle critPeriod (critPeriod + critPos) ↔
      TwoWay.PeriodFrom (letters needle) needle.length 0 critPeriod := by
  have hfits := h.fits
  have hiff := slice_eq_iff (a := needle) (b := needle) (i := 0) (j := critPeriod)
    (show 0 + critPos ≤ _ by omega) (show critPeriod + critPos ≤ _ by omega)
  rw [Nat.zero_add] at hiff
  rw [hiff]
  constructor
  · intro heq i _ hlt
    rcases Nat.lt_or_ge i critPos with hi | hi
    · have := heq i hi
      rwa [Nat.zero_add, Nat.add_comm critPeriod] at this
    · exact h.repeated i hi hlt
  · intro hper e he
    rw [Nat.zero_add, hper e (Nat.zero_le e) (by omega), Nat.add_comm]

/-- The larger of the two maximal suffixes gives a critical position. -/
theorem critical_of_suffixes {needle : Bytes} {up down : ℕ × ℕ}
    (hup : TwoWay.Suffix (· < ·) (letters needle) needle.length up.1 up.2)
    (hdown : TwoWay.Suffix (Function.swap (· < ·)) (letters needle) needle.length down.1 down.2) :
    TwoWay.Critical (letters needle) needle.length (if up.1 > down.1 then up else down).1
      (if up.1 > down.1 then up else down).2 := by
  by_cases h : up.1 > down.1
  · rw [if_pos h]
    exact TwoWay.Critical.of_suffixes hup hdown h.le
  · rw [if_neg h]
    exact TwoWay.Critical.of_suffixes hdown hup (Nat.not_lt.1 h)

theorem plan_ok {needle input : Bytes} (hneedle : 0 < needle.length)
    (hinput : needle.length ≤ input.length) {fuel : ℕ} (hfuel : 2 * needle.length ≤ fuel) :
    ∃ p, plan fuel needle input = .ok p ∧ p.Sound needle input := by
  obtain ⟨up, hup, hsup⟩ := maximalSuffix_ok (· < ·) false
    (fun _ _ => decide_eq_true_iff) hneedle hfuel
  obtain ⟨down, hdown, hsdown⟩ :=
    maximalSuffix_ok (Function.swap (· < ·)) true
    (fun _ _ => decide_eq_true_iff) hneedle hfuel
  have hcrit := critical_of_suffixes hsup hsdown
  rw [plan, hup, ok_bind, hdown, ok_bind]
  generalize (if up.1 > down.1 then up else down) = crit at hcrit ⊢
  obtain ⟨critPos, critPeriod⟩ := crit
  have hfits := hcrit.fits
  have hshort := slice_eq_iff_periodFrom hcrit
  simp only [range_ok (Nat.zero_le critPos) (show critPos ≤ needle.length by omega),
    range_ok (Nat.le_add_right critPeriod critPos)
      (show critPeriod + critPos ≤ needle.length by omega),
    subtract_ok (show critPos ≤ needle.length by omega), subtract_ok hneedle, subtract_ok hinput,
    ok_bind]
  by_cases heq : slice needle 0 critPos = slice needle critPeriod (critPeriod + critPos)
  · rw [if_pos (beq_iff_eq.2 heq)]
    exact ⟨_, rfl, ⟨critPeriod, hcrit, fun _ => ⟨rfl, hshort.1 heq⟩,
      fun h => absurd heq (beq_eq_false_iff_ne.1 h)⟩,
      Nat.sub_add_cancel hneedle, Nat.sub_add_cancel hinput⟩
  · rw [if_neg fun h => heq (beq_iff_eq.1 h)]
    exact ⟨_, rfl, ⟨critPeriod, hcrit, fun h => absurd (beq_iff_eq.1 h) heq,
      fun _ => ⟨rfl, fun h => heq (hshort.2 h)⟩⟩,
      Nat.sub_add_cancel hneedle, Nat.sub_add_cancel hinput⟩

/-! ## The two-way loop -/

/-- The loop has come to `base`: no earlier offset is an occurrence, and the first `memory`
    bytes are known to match here. -/
structure Reached (needle input : Bytes) (p : Plan) (base memory : ℕ) : Prop where
  earlier : ∀ start < base, ¬ OccursAt needle input start
  memory_le : memory ≤ needle.length
  known : ∀ j < memory, letters needle j = letters input (base + j)
  forgets : p.shortPeriod = false → memory = 0

section loop

variable {needle input : Bytes} {p : Plan} {base memory : ℕ}

theorem Reached.start : Reached needle input p 0 0 :=
  ⟨nofun, Nat.zero_le _, nofun, fun _ => rfl⟩

/-- Moving on past offsets that are no occurrences, with nothing known. -/
theorem Reached.skip (h : Reached needle input p base memory) {next : ℕ}
    (hnone : ∀ start, base ≤ start → start < next → ¬ OccursAt needle input start) :
    Reached needle input p next 0 := by
  refine ⟨fun start hlt => ?_, Nat.zero_le _, nofun, fun _ => rfl⟩
  rcases Nat.lt_or_ge start base with hb | hb
  · exact h.earlier start hb
  · exact hnone start hb hlt

/-- An occurrence has the last byte of the needle where the anchor search looks for it. -/
theorem anchor_of_occursAt (hp : p.Sound needle input) {start : ℕ}
    (h : OccursAt needle input start) (hb : base ≤ start) :
    (slice input (base + p.anchor) input.length)[start - base]? =
      some (letters needle p.anchor) := by
  have hanchor := hp.anchor
  obtain ⟨hle, heq⟩ := occursAt_iff_occurs.1 h
  rw [slice, List.take_length, List.getElem?_drop,
    show base + p.anchor + (start - base) = start + p.anchor by omega,
    List.getElem?_eq_getElem (by omega), heq p.anchor (by omega), letters,
    List.getD_eq_getElem _ _ (by omega)]

/-- Where the anchor search finds nothing, the needle is nowhere ahead. -/
theorem anchor_none (hp : p.Sound needle input)
    (h : (slice input (base + p.anchor) input.length).findIdx? (· == letters needle p.anchor)
      = none) {start : ℕ} (hb : base ≤ start) : ¬ OccursAt needle input start := by
  intro hocc
  have hmem := List.mem_of_getElem? (anchor_of_occursAt hp hocc hb)
  exact absurd (List.findIdx?_eq_none_iff.1 h _ hmem) (by rw [beq_self_eq_true]; exact nofun)

/-- Where the anchor search finds the byte, it has passed no occurrence, and the needle fits
    there. -/
theorem anchor_some (hp : p.Sound needle input) {skip : ℕ}
    (h : (slice input (base + p.anchor) input.length).findIdx? (· == letters needle p.anchor)
      = some skip) :
    base + skip + needle.length ≤ input.length ∧
      ∀ start, base ≤ start → start < base + skip → ¬ OccursAt needle input start := by
  have hanchor := hp.anchor
  obtain ⟨hlt, -, hbefore⟩ := List.findIdx?_eq_some_iff_getElem.1 h
  constructor
  · rw [slice, List.take_length, List.length_drop] at hlt
    omega
  · intro start hb hskip hocc
    have hget := anchor_of_occursAt hp hocc hb
    refine hbefore (start - base) (by omega) ?_
    rw [List.getElem?_eq_getElem (by omega)] at hget
    rw [Option.some.inj hget, beq_self_eq_true]

/-- A mismatch to the right of the critical position. -/
theorem Reached.right_mismatch (hp : p.Sound needle input)
    (h : Reached needle input p base memory) {stop : ℕ} (hstop : stop < needle.length)
    (hmatch : ∀ j, p.critPos ≤ j → j < stop → letters needle j = letters input (base + j))
    (hne : letters needle stop ≠ letters input (base + stop)) :
    Reached needle input p (base + (stop - p.critPos + 1)) 0 := by
  obtain ⟨critPeriod, hcrit, -, -⟩ := hp.critical
  refine h.skip fun start hb hlt hocc => ?_
  obtain ⟨s, rfl⟩ := Nat.exists_eq_add_of_le hb
  exact hcrit.right_mismatch hstop hmatch hne (by omega) (occursAt_iff_occurs.1 hocc)

/-- A mismatch to the left of it, when all to the right matches. -/
theorem Reached.left_mismatch (hp : p.Sound needle input)
    (h : Reached needle input p base memory)
    (hmatch : ∀ j, p.critPos ≤ j → j < needle.length →
      letters needle j = letters input (base + j))
    (hne : ¬ OccursAt needle input base) :
    Reached needle input p (base + p.period)
      (if p.shortPeriod then needle.length - p.period else 0) := by
  obtain ⟨critPeriod, hcrit, hshort, hlong⟩ := hp.critical
  have hnone : ∀ start, base ≤ start → start < base + p.period → ¬ OccursAt needle input start := by
    intro start hb hlt hocc
    obtain ⟨s, rfl⟩ := Nat.exists_eq_add_of_le hb
    rcases Nat.eq_zero_or_pos s with rfl | hs
    · exact hne hocc
    cases hcase : p.shortPeriod with
    | true =>
      exact hcrit.left_mismatch_short hs hmatch (by rw [← (hshort hcase).1]; omega)
        (occursAt_iff_occurs.1 hocc)
    | false =>
      obtain ⟨hperiod, hnot⟩ := hlong hcase
      exact hcrit.left_mismatch_long hnot hs hmatch (by omega) (occursAt_iff_occurs.1 hocc)
  have hskip := h.skip hnone
  cases hcase : p.shortPeriod with
  | false => exact hskip
  | true =>
    obtain ⟨hperiod, hper⟩ := hshort hcase
    refine ⟨hskip.earlier, Nat.sub_le _ _, fun j hj => ?_, fun hlong => ?_⟩
    · rw [hperiod]
      exact hcrit.memory hper hmatch (hperiod ▸ hj)
    · rw [hcase] at hlong
      cases hlong

theorem Plan.Sound.bounds (hp : p.Sound needle input) :
    p.critPos < needle.length ∧ 0 < p.period ∧ (p.shortPeriod = true → p.period ≤ needle.length) := by
  obtain ⟨critPeriod, hcrit, hshort, hlong⟩ := hp.critical
  have hpos := hcrit.period_pos
  have hfits := hcrit.fits
  refine ⟨by omega, ?_, fun h => by rw [(hshort h).1]; omega⟩
  cases hcase : p.shortPeriod with
  | true => rwa [(hshort hcase).1]
  | false => rw [(hlong hcase).1]; exact Nat.succ_pos _

/-- The loop from any state of its invariant: it moves forward at each round, so a fuel for
    the offsets that are left suffices. -/
theorem twoWayLoop_ok (lanes : Lanes) (hp : p.Sound needle input) (fuel : ℕ)
    (h : Reached needle input p base memory) (hpos : 0 < fuel)
    (hfuel : p.lastStart + 2 ≤ fuel + base) :
    ∃ found, twoWayLoop lanes needle input p fuel base memory = .ok found ∧
      IsFirst needle input found := by
  have hanchor := hp.anchor
  have hlast := hp.lastStart
  obtain ⟨hcrit, hperiod, hfits⟩ := hp.bounds
  induction fuel generalizing base memory with
  | zero => omega
  | succ fuel ih =>
    rw [twoWayLoop]
    by_cases hend : p.lastStart < base
    · rw [if_pos hend]
      refine ⟨none, rfl, fun start hocc => ?_⟩
      rcases Nat.lt_or_ge start base with hb | hb
      · exact h.earlier start hb hocc
      · have := (occursAt_iff.1 hocc).1
        omega
    rw [if_neg hend, index_ok (by omega), ok_bind, range_ok (by omega) le_rfl, ok_bind,
      findLiteralAnchor_eq]
    rcases hfind : (slice input (base + p.anchor) input.length).findIdx?
      (· == letters needle p.anchor) with _ | skip
    · refine ⟨none, rfl, fun start hocc => ?_⟩
      rcases Nat.lt_or_ge start base with hb | hb
      · exact h.earlier start hb hocc
      · exact anchor_none hp hfind hb hocc
    obtain ⟨hin, hskipped⟩ := anchor_some hp hfind
    simp only
    -- a skip leaves the memory of another alignment behind
    have hreached : Reached needle input p (base + skip) (if skip > 0 then 0 else memory) := by
      by_cases hs : skip > 0
      · rw [if_pos hs]
        exact h.skip hskipped
      · rw [if_neg hs, Nat.eq_zero_of_not_pos hs]
        exact h
    generalize (if skip > 0 then 0 else memory) = memory at hreached ⊢
    have hmemory := hreached.memory_le
    have hforgets := hreached.forgets
    generalize hstart : (if p.shortPeriod = true then max p.critPos memory else p.critPos) = start
    have hstart_le : p.critPos ≤ start ∧ start ≤ needle.length ∧
        (start ≤ p.critPos ∨ start ≤ memory) := by
      cases hcase : p.shortPeriod with
      | true => rw [hcase, if_pos rfl] at hstart; omega
      | false => rw [hcase, if_neg Bool.false_ne_true] at hstart; omega
    obtain ⟨stop, hrun, hge, hle, hmatch, hne⟩ :=
      matchRight_ok needle input (base + skip)
        (needle.length - start) (i := start) (by omega) hin
    have hright : ∀ j, p.critPos ≤ j → j < stop →
        letters needle j = letters input (base + skip + j) := by
      intro j hj hlt
      rcases Nat.lt_or_ge j start with hjs | hjs
      · exact hreached.known j (by omega)
      · exact hmatch j hjs hlt
    rw [hrun, ok_bind]
    by_cases hstop : stop < needle.length
    · rw [if_pos hstop, subtract_ok (by omega), ok_bind]
      have hnext := hreached.right_mismatch hp hstop hright (hne (by omega))
      have hzero : (if p.shortPeriod = true then 0 else memory) = 0 := by
        cases hcase : p.shortPeriod with
        | true => rfl
        | false => exact hforgets hcase
      rw [hzero]
      exact ih hnext (by omega) (by omega)
    rw [if_neg hstop]
    have hall : ∀ j, p.critPos ≤ j → j < needle.length →
        letters needle j = letters input (base + skip + j) :=
      fun j hj hlt => hright j hj (by omega)
    obtain ⟨mismatch, hleft, hiff⟩ := matchLeft_ok needle input
      (base + skip) (if p.shortPeriod = true then memory else 0) p.critPos hcrit.le hin
    simp only [hleft, ok_bind]
    cases mismatch with
    | false =>
      refine ⟨some (base + skip), rfl, occursAt_iff_occurs.2 ⟨hin, fun i hi => ?_⟩,
        hreached.earlier⟩
      rcases Nat.lt_or_ge i p.critPos with hic | hic
      · rcases Nat.lt_or_ge i (if p.shortPeriod = true then memory else 0) with him | him
        · refine hreached.known i (lt_of_lt_of_le him ?_)
          split_ifs <;> omega
        · exact hiff.1 rfl i him hic
      · exact hall i hic hi
    | true =>
      have hnot : ¬ OccursAt needle input (base + skip) := by
        intro hocc
        have heq := (occursAt_iff_occurs.1 hocc).2
        exact Bool.noConfusion (hiff.2 fun i _ hi => heq i (by omega))
      have hnext := hreached.left_mismatch hp hall hnot
      rw [if_pos rfl]
      cases hcase : p.shortPeriod with
      | true =>
        rw [if_pos rfl, subtract_ok (hfits hcase), ok_bind]
        rw [hcase, if_pos rfl] at hnext
        exact ih hnext (by omega) (by omega)
      | false =>
        rw [hcase, if_neg Bool.false_ne_true] at hnext
        rw [if_neg Bool.false_ne_true, hforgets hcase]
        exact ih hnext (by omega) (by omega)

end loop

/-! ## The search -/

/-- A fuel that is enough for the loops of a search. -/
def enoughFuel (needle input : Bytes) : ℕ := 2 * needle.length + input.length + 2

theorem find_windows {needle input : Bytes} (hinput : needle.length ≤ input.length) :
    IsFirst needle input ((List.range (input.length - needle.length + 1)).find? fun start =>
      slice input start (start + needle.length) == needle) := by
  have hocc : ∀ start, OccursAt needle input start ↔
      start ∈ List.range (input.length - needle.length + 1) ∧
        (slice input start (start + needle.length) == needle) = true := by
    intro start
    rw [occursAt_iff, List.mem_range, beq_iff_eq]
    exact and_congr_left fun _ => by omega
  rcases hfind : (List.range (input.length - needle.length + 1)).find? fun start =>
    slice input start (start + needle.length) == needle with _ | start
  · intro start h
    obtain ⟨hmem, heq⟩ := (hocc start).1 h
    exact List.find?_eq_none.1 hfind start hmem heq
  · obtain ⟨heq, hmem, hbefore⟩ := List.find?_range_eq_some.1 hfind
    refine ⟨(hocc start).2 ⟨hmem, heq⟩, fun earlier hlt h => ?_⟩
    have := hbefore earlier hlt
    rw [((hocc earlier).1 h).2] at this
    exact Bool.noConfusion this

theorem find1_first (first : UInt8) (input : Bytes) : IsFirst [first] input (find1 first input) := by
  have hocc : ∀ start, OccursAt [first] input start ↔ input[start]? = some first := by
    intro start
    rw [OccursAt, List.singleton_prefix_iff_head?_eq_some, List.head?_drop]
    exact and_iff_right_of_imp fun h => (List.getElem?_eq_some_iff.1 h).1.le
  unfold find1
  rcases hfind : input.findIdx? (· == first) with _ | start
  · intro start h
    have := List.findIdx?_eq_none_iff.1 hfind _ (List.mem_of_getElem? ((hocc start).1 h))
    rw [beq_self_eq_true] at this
    exact Bool.noConfusion this
  · obtain ⟨hlt, heq, hbefore⟩ := List.findIdx?_eq_some_iff_getElem.1 hfind
    refine ⟨(hocc start).2 ?_, fun earlier hearlier h => hbefore earlier hearlier ?_⟩
    · rw [List.getElem?_eq_getElem hlt, beq_iff_eq.1 heq]
    · obtain ⟨_, hget⟩ := List.getElem?_eq_some_iff.1 ((hocc earlier).1 h)
      rw [hget, beq_self_eq_true]

theorem twoWayFind_ok (lanes : Lanes) {needle input : Bytes} (hneedle : 0 < needle.length)
    (hinput : needle.length ≤ input.length) {fuel : ℕ} (hfuel : enoughFuel needle input ≤ fuel) :
    ∃ found, twoWayFind lanes fuel needle input = .ok found ∧ IsFirst needle input found := by
  rw [enoughFuel] at hfuel
  obtain ⟨p, hplan, hp⟩ := plan_ok hneedle hinput (show 2 * needle.length ≤ fuel by omega)
  have hlast := hp.lastStart
  rw [twoWayFind, hplan, ok_bind]
  exact twoWayLoop_ok lanes hp fuel Reached.start (by omega) (by omega)

/-- There is at most one first occurrence. -/
theorem IsFirst.unique {needle input : Bytes} {a b : Option ℕ} (ha : IsFirst needle input a)
    (hb : IsFirst needle input b) : a = b := by
  cases a with
  | none =>
    cases b with
    | none => rfl
    | some j => exact absurd hb.1 (ha j)
  | some i =>
    cases b with
    | none => exact absurd ha.1 (hb i)
    | some j =>
      rcases Nat.lt_trichotomy i j with h | rfl | h
      · exact absurd ha.1 (hb.2 i h)
      · rfl
      · exact absurd hb.1 (ha.2 j h)

theorem findLiteral_ok (lanes : Lanes) (needle input : Bytes) {fuel : ℕ}
    (hfuel : enoughFuel needle input ≤ fuel) :
    ∃ found, findLiteral lanes fuel needle input = .ok found ∧ IsFirst needle input found := by
  match needle with
  | [] => exact ⟨_, rfl, ⟨Nat.zero_le _, List.nil_prefix⟩, nofun⟩
  | [first] => exact ⟨_, rfl, find1_first first input⟩
  | first :: second :: rest =>
    simp only [findLiteral]
    generalize hneedle : first :: second :: rest = needle at hfuel ⊢
    have hpos : 0 < needle.length := hneedle ▸ Nat.succ_pos _
    by_cases hlong : needle.length > input.length
    · rw [if_pos hlong]
      exact ⟨_, rfl, fun start h => by have := (occursAt_iff.1 h).1; omega⟩
    rw [if_neg hlong]
    by_cases hshort : needle.length < twoWayMinNeedleBytes
    · rw [if_pos hshort]
      exact ⟨_, rfl, find_windows (Nat.not_lt.1 hlong)⟩
    · rw [if_neg hshort]
      exact twoWayFind_ok lanes hpos (Nat.not_lt.1 hlong) hfuel

/-- **Literal search**: for each needle, input and vector unit, the search comes to an end
    without a fault, and it answers with the first offset at which the needle is, or with
    none when the needle is nowhere. -/
theorem find_literal_correct (lanes : Lanes) (needle input : Bytes) :
    ∃ found, IsFirst needle input found ∧
      ∀ fuel, enoughFuel needle input ≤ fuel → findLiteral lanes fuel needle input = .ok found := by
  obtain ⟨found, -, hfirst⟩ := findLiteral_ok lanes needle input le_rfl
  refine ⟨found, hfirst, fun fuel hfuel => ?_⟩
  obtain ⟨found', hrun, hfirst'⟩ := findLiteral_ok lanes needle input hfuel
  rw [hrun, hfirst'.unique hfirst]

/-- The period of the needle is its half, and the match lies one letter behind a near miss. -/
example : findLiteral .scalar 60 [1, 2, 1, 2, 1, 2, 1, 2] [1, 2, 1, 2, 1, 2, 1, 1, 2, 1, 2, 1, 2, 1, 2]
    = .ok (some 7) := rfl

end Search

end Coseva
