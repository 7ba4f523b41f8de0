/-
  Coseva — where a parallel run cuts a document
  (`coseva/src/parallel/split.rs`).

  * `boundaries`: the splitter, which counts quotes;
  * `recordStop`: where the record ends that begins at an offset, by counting
    quotes, and `Boundary.after`: the boundary behind a number of records;
  * `boundaries_spec`: the splitter finds such boundaries only.
-/
import Coseva.Cursor
import Coseva.Lib.Window

namespace Coseva

/-- `Boundary`: a record boundary, with what a parser needs to resume there. -/
structure Boundary where
  byte : ℕ
  line : ℕ
  record : ℕ
  deriving DecidableEq, Repr

namespace Split

variable (d : Dialect)

/-! ## The splitter -/

/-- The loop of `boundaries`.  A byte that is neither a quote, a record ending
    nor a line feed, which the scan of the source passes over, changes nothing. -/
def boundariesLoop (length stride : ℕ) :
    (pos : ℕ) → Bytes → (inQuotes : Bool) → (line record target : ℕ) → List Boundary
  | _, [], _, _, _, _ => []
  | pos, byte :: rest, inQuotes, line, record, target =>
    let inQuotes := if byte = d.quote then !inQuotes else inQuotes
    let line := if byte = 10 then line + 1 else line
    if byte = d.recordEnding.byte ∧ inQuotes = false then
      if pos + 1 ≥ target ∧ pos + 1 < length then
        ⟨pos + 1, line, record + 1⟩ ::
          boundariesLoop length stride (pos + 1) rest inQuotes line (record + 1) (pos + 1 + stride)
      else boundariesLoop length stride (pos + 1) rest inQuotes line (record + 1) target
    else boundariesLoop length stride (pos + 1) rest inQuotes line record target

/-- `boundaries`: up to `wanted` record boundaries at or after `start`. -/
def boundaries (input : Bytes) (start : Boundary) (wanted : ℕ) : List Boundary :=
  if input.length < start.byte then [start]
  else
    let parts := max wanted 1
    let stride := (input.length - start.byte + (parts - 1)) / parts
    start :: boundariesLoop d input.length stride start.byte (input.drop start.byte) false
      start.line start.record (start.byte + stride)

/-! ## Records by counting quotes -/

/-- The width of what is left of a record. -/
def recordWidth : (inQuotes : Bool) → Bytes → ℕ
  | _, [] => 0
  | inQuotes, byte :: rest =>
    let inQuotes := if byte = d.quote then !inQuotes else inQuotes
    if byte = d.recordEnding.byte ∧ inQuotes = false then 1 else 1 + recordWidth inQuotes rest

/-- Where the record ends that begins at `start`. -/
def recordStop (input : Bytes) (start : ℕ) : ℕ := start + recordWidth d false (input.drop start)

/-- Where the record begins that is the `m`-th behind `start`. -/
def recordStart (input : Bytes) (start : ℕ) : (m : ℕ) → ℕ
  | 0 => start
  | m + 1 => recordStop d input (recordStart input start m)

variable {d} {input : Bytes}

theorem recordWidth_le : ∀ (inQuotes : Bool) (text : Bytes),
    recordWidth d inQuotes text ≤ text.length
  | _, [] => Nat.le_refl _
  | inQuotes, byte :: rest => by
    have := recordWidth_le (if byte = d.quote then !inQuotes else inQuotes) rest
    rw [recordWidth, List.length_cons]
    generalize (if byte = d.quote then !inQuotes else inQuotes) = inside at this ⊢
    split_ifs <;> omega

theorem recordStop_le {start : ℕ} (h : start ≤ input.length) :
    recordStop d input start ≤ input.length := by
  have := recordWidth_le (d := d) false (input.drop start)
  rw [List.length_drop] at this
  unfold recordStop
  omega

theorem lt_recordStop {start : ℕ} (h : start < input.length) :
    start < recordStop d input start := by
  obtain ⟨b, v, hv⟩ : ∃ b v, input.drop start = b :: v :=
    ⟨_, _, List.drop_eq_getElem_cons h⟩
  unfold recordStop
  rw [hv, recordWidth]
  generalize (if b = d.quote then !false else false) = inside
  split_ifs <;> omega

theorem recordStop_length : recordStop d input input.length = input.length := by
  simp [recordStop, recordWidth]

theorem recordStart_le {start : ℕ} (h : start ≤ input.length) :
    ∀ m, recordStart d input start m ≤ input.length
  | 0 => h
  | m + 1 => recordStop_le (recordStart_le h m)

theorem recordStart_le_succ {start : ℕ} (h : start ≤ input.length) (m : ℕ) :
    recordStart d input start m ≤ recordStart d input start (m + 1) := by
  rcases Nat.lt_or_ge (recordStart d input start m) input.length with hm | hm
  · exact Nat.le_of_lt (lt_recordStop hm)
  · have := recordStart_le (d := d) h m
    have heq : recordStart d input start m = input.length := by omega
    rw [recordStart, heq, recordStop_length]

theorem recordStart_mono {start : ℕ} (h : start ≤ input.length) {m n : ℕ} (hmn : m ≤ n) :
    recordStart d input start m ≤ recordStart d input start n :=
  monotone_nat_of_le_succ (recordStart_le_succ h) hmn

/-- Records that begin within the document begin one behind the other. -/
theorem recordStart_lt {start m n : ℕ} (h : start ≤ input.length) (hmn : m < n)
    (hm : recordStart d input start m < input.length) :
    recordStart d input start m < recordStart d input start n :=
  Nat.lt_of_lt_of_le (lt_recordStop hm) (recordStart_mono h hmn)

/-- The boundary behind `m` records, counted from `start`. -/
def after (d : Dialect) (input : Bytes) (start : Boundary) (m : ℕ) : Boundary where
  byte := recordStart d input start.byte m
  line := start.line + (slice input start.byte (recordStart d input start.byte m)).count 10
  record := start.record + m

/-! ## The splitter finds the ends of records -/

theorem slice_succ {start pos : ℕ} {byte : UInt8} {rest : Bytes} (hstart : start ≤ pos)
    (h : input.drop pos = byte :: rest) :
    slice input start (pos + 1) = slice input start pos ++ [byte] := by
  have hlt := Window.lt_length_of_drop h
  have hget : input[pos]? = some byte := Window.getElem?_of_drop (u := []) h rfl
  unfold slice
  rw [List.take_add_one, hget, List.drop_append_of_le_length (by simp; omega)]
  rfl

/-- What the loop still finds lies behind records `m` and is in order. -/
theorem boundariesLoop_spec (stride : ℕ) (start : Boundary) :
    ∀ (rest : Bytes) (pos : ℕ) (inQuotes : Bool) (m target : ℕ), start.byte ≤ pos →
      input.drop pos = rest →
      recordStart d input start.byte (m + 1) = pos + recordWidth d inQuotes rest →
      ∃ ns : List ℕ,
        boundariesLoop d input.length stride pos rest inQuotes
          (start.line + (slice input start.byte pos).count 10) (start.record + m) target =
            ns.map (after d input start) ∧
        (m :: ns).Pairwise (· < ·) ∧
        ∀ n ∈ ns, recordStart d input start.byte n < input.length
  | [], _, _, _, _, _, _, _ => ⟨[], rfl, by simp, by simp⟩
  | byte :: rest, pos, inQuotes, m, target, hstart, hdrop, hstop => by
    have hlt := Window.lt_length_of_drop hdrop
    have hrest : input.drop (pos + 1) = rest :=
      Window.drop_of_drop (u := [byte]) hdrop (by simp)
    have hline : start.line + (slice input start.byte (pos + 1)).count 10 =
        if byte = 10 then start.line + (slice input start.byte pos).count 10 + 1
        else start.line + (slice input start.byte pos).count 10 := by
      rw [slice_succ hstart hdrop, List.count_append, List.count_singleton]
      by_cases hb : byte = 10 <;> simp [hb, Nat.add_assoc]
    rw [recordWidth] at hstop
    simp only [boundariesLoop, ← hline] at hstop ⊢
    by_cases hend : byte = d.recordEnding.byte ∧
        (if byte = d.quote then !inQuotes else inQuotes) = false
    · rw [if_pos hend] at hstop
      rw [if_pos hend, hend.2]
      have hnext : recordStart d input start.byte (m + 1 + 1) =
          pos + 1 + recordWidth d false rest := by
        rw [recordStart, hstop, recordStop, hrest]
      have hsorted : ∀ {ns : List ℕ}, ((m + 1) :: ns).Pairwise (· < ·) →
          (m :: ns).Pairwise (· < ·) ∧ (m :: (m + 1) :: ns).Pairwise (· < ·) := by
        intro ns hns
        have hall := List.pairwise_cons.mp hns
        have hm : ∀ n ∈ ns, m < n := fun n hn => Nat.lt_of_succ_lt (hall.1 n hn)
        refine ⟨List.pairwise_cons.mpr ⟨hm, hall.2⟩, List.pairwise_cons.mpr ⟨?_, hns⟩⟩
        intro n hn
        rcases List.mem_cons.mp hn with rfl | hn
        · exact Nat.lt_succ_self m
        · exact hm n hn
      split_ifs with htarget
      · obtain ⟨ns, hrun, hns, hin⟩ := boundariesLoop_spec stride start rest (pos + 1) false
          (m + 1) (pos + 1 + stride) (by omega) hrest hnext
        refine ⟨(m + 1) :: ns, ?_, (hsorted hns).2, ?_⟩
        · rw [List.map_cons, ← hrun]
          congr 1
          simp only [after, hstop, Nat.add_assoc]
        · intro n hn
          rcases List.mem_cons.mp hn with rfl | hn
          · rw [hstop]; exact htarget.2
          · exact hin n hn
      · obtain ⟨ns, hrun, hns, hin⟩ := boundariesLoop_spec stride start rest (pos + 1) false
          (m + 1) target (by omega) hrest hnext
        exact ⟨ns, hrun, (hsorted hns).1, hin⟩
    · rw [if_neg hend] at hstop
      rw [if_neg hend]
      exact boundariesLoop_spec stride start rest (pos + 1) _ m target (by omega) hrest
        (by rw [hstop, Nat.add_assoc])

/-- **The splitter** returns the starts of records, the first of them `start`
    itself, in order and within the document. -/
theorem boundaries_spec (d : Dialect) {start : Boundary} (h : start.byte ≤ input.length)
    (wanted : ℕ) :
    ∃ ns : List ℕ, boundaries d input start wanted = (0 :: ns).map (after d input start) ∧
      (0 :: ns).Pairwise (· < ·) ∧ ∀ n ∈ ns, recordStart d input start.byte n < input.length := by
  have hzero : after d input start 0 = start := by
    simp [after, recordStart, slice]
  obtain ⟨ns, hrun, hns, hin⟩ := boundariesLoop_spec (d := d)
    ((input.length - start.byte + (max wanted 1 - 1)) / max wanted 1) start
    (input.drop start.byte) start.byte false 0
    (start.byte + (input.length - start.byte + (max wanted 1 - 1)) / max wanted 1)
    (Nat.le_refl _) rfl rfl
  refine ⟨ns, ?_, hns, hin⟩
  have hcount : (slice input start.byte start.byte).count 10 = 0 := by simp [slice]
  rw [hcount] at hrun
  unfold boundaries
  rw [if_neg (by omega), List.map_cons, hzero]
  exact congrArg _ hrun

end Split

end Coseva
