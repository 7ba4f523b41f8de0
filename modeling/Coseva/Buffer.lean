/-
  Coseva — reads of a byte buffer, by offsets that are trusted or checked.

  An access out of range is a fault of its own, so that it can be shown never to
  happen.

  * `getUnchecked`: a range of a buffer;
  * `trimFront` and `trimBack`: the loops that move the ends of a range past
    ASCII whitespace, and `trim_ok`, what they leave.
-/
import Coseva.Engine

namespace Coseva

/-- Why an operation does not return. -/
inductive BufferFault
  /-- an `assert!` or a `Vec` that cannot grow -/
  | assertion
  /-- an index behind the end of a buffer -/
  | range
  deriving DecidableEq, Repr

/-- `get_unchecked(start..stop)`. -/
def getUnchecked (buffer : Bytes) (start stop : ℕ) : Except BufferFault Bytes :=
  if start ≤ stop ∧ stop ≤ buffer.length then .ok (slice buffer start stop) else .error .range

theorem getUnchecked_ok {buffer : Bytes} {start stop : ℕ} (h : start ≤ stop)
    (h' : stop ≤ buffer.length) : getUnchecked buffer start stop = .ok (slice buffer start stop) :=
  if_pos ⟨h, h'⟩

/-- The first loop of `Span::trim_ascii`, over the `count` bytes from `start`. -/
def trimFront (buffer : Bytes) : ℕ → ℕ → Except BufferFault ℕ
  | start, 0 => .ok start
  | start, count + 1 =>
    match buffer[start]? with
    | none => .error .range
    | some byte =>
      if Span.isAsciiWhitespace byte then trimFront buffer (start + 1) count else .ok start

/-- The second loop of `Span::trim_ascii`. -/
def trimBack (buffer : Bytes) (start : ℕ) : ℕ → Except BufferFault ℕ
  | 0 => .ok start
  | count + 1 =>
    match buffer[start + count]? with
    | none => .error .range
    | some byte =>
      if Span.isAsciiWhitespace byte then trimBack buffer start count else .ok (start + count + 1)

/-- What is left of a text without the whitespace around it. -/
def trimmed (text : Bytes) : Bytes :=
  ((text.dropWhile Span.isAsciiWhitespace).reverse.dropWhile Span.isAsciiWhitespace).reverse

section trim

variable {buffer : Bytes}

theorem trimFront_ok (start count : ℕ) (h : start + count ≤ buffer.length) :
    trimFront buffer start count =
      .ok (start + ((slice buffer start (start + count)).takeWhile Span.isAsciiWhitespace).length) := by
  induction count generalizing start with
  | zero => simp [trimFront, slice]
  | succ count ih =>
    have hlt : start < buffer.length := by omega
    have hcons : slice buffer start (start + (count + 1)) =
        buffer[start] :: slice buffer (start + 1) (start + 1 + count) := by
      have hlen : start < (buffer.take (start + (count + 1))).length := by rw [List.length_take]; omega
      rw [slice, List.drop_eq_getElem_cons hlen, List.getElem_take, slice,
        Nat.add_right_comm start 1 count, Nat.add_assoc]
    rw [trimFront, List.getElem?_eq_getElem hlt, hcons, List.takeWhile_cons]
    simp only
    split_ifs with hws
    · rw [ih (start + 1) (by omega), List.length_cons]
      congr 1
      omega
    · simp

theorem trimBack_ok (start count : ℕ) (h : start + count ≤ buffer.length) :
    trimBack buffer start count = .ok (start + count -
      ((slice buffer start (start + count)).reverse.takeWhile Span.isAsciiWhitespace).length) := by
  induction count with
  | zero => simp [trimBack, slice]
  | succ count ih =>
    have hlt : start + count < buffer.length := by omega
    have hsnoc : slice buffer start (start + (count + 1)) =
        slice buffer start (start + count) ++ [buffer[start + count]] := by
      unfold slice
      rw [show start + (count + 1) = start + count + 1 by omega, ← List.take_append_getElem hlt,
        List.drop_append_of_le_length (by rw [List.length_take]; omega)]
    rw [trimBack, List.getElem?_eq_getElem hlt, hsnoc, List.reverse_append]
    simp only [List.reverse_singleton, List.singleton_append, List.takeWhile_cons]
    split_ifs with hws
    · rw [ih (by omega), List.length_cons]
      congr 1
      omega
    · simp
      omega

/-- The loops keep what lies between the whitespace. -/
theorem slice_trimmed (start : ℕ) {stop : ℕ} (hstop : stop ≤ buffer.length) :
    slice buffer (start + ((slice buffer start stop).takeWhile Span.isAsciiWhitespace).length)
        (stop - (((slice buffer start stop).dropWhile Span.isAsciiWhitespace).reverse.takeWhile
          Span.isAsciiWhitespace).length) =
      trimmed (slice buffer start stop) := by
  obtain ⟨text, htext⟩ : ∃ text, slice buffer start stop = text := ⟨_, rfl⟩
  have hlength : text.length = stop - start := by
    rw [← htext, slice, List.length_drop, List.length_take, Nat.min_eq_left hstop]
  obtain ⟨a, ha⟩ : ∃ a, (text.takeWhile Span.isAsciiWhitespace).length = a := ⟨_, rfl⟩
  have hrest : text.dropWhile Span.isAsciiWhitespace = text.drop a := by
    conv_rhs => rw [← List.takeWhile_append_dropWhile (p := Span.isAsciiWhitespace) (l := text)]
    rw [← ha, List.drop_left]
  obtain ⟨b, hb⟩ : ∃ b, ((text.drop a).reverse.takeWhile Span.isAsciiWhitespace).length = b :=
    ⟨_, rfl⟩
  have hback : (text.drop a).reverse.dropWhile Span.isAsciiWhitespace = (text.drop a).reverse.drop b := by
    conv_rhs => rw [← List.takeWhile_append_dropWhile (p := Span.isAsciiWhitespace)
      (l := (text.drop a).reverse)]
    rw [← hb, List.drop_left]
  rw [htext, trimmed, hrest, ha, hb, hback, List.drop_reverse, List.reverse_reverse, List.length_drop,
    hlength, ← htext, slice, slice, List.drop_drop, List.take_drop, List.take_take]
  by_cases hle : start + a + b ≤ stop
  · rw [show min (start + a + (stop - start - a - b)) stop = stop - b by omega]
  · rw [List.drop_of_length_le (by rw [List.length_take]; omega),
      List.drop_of_length_le (by rw [List.length_take]; omega)]

/-- **The loops of a trim stay inside the field**, and leave what lies between the whitespace. -/
theorem trim_ok {start stop : ℕ} (h : start ≤ stop) (hstop : stop ≤ buffer.length) :
    ∃ start' stop', trimFront buffer start (stop - start) = .ok start' ∧
      trimBack buffer start' (stop - start') = .ok stop' ∧
      start ≤ start' ∧ start' ≤ stop' ∧ stop' ≤ stop ∧
      slice buffer start' stop' = trimmed (slice buffer start stop) ∧
      start' = start + ((slice buffer start stop).takeWhile Span.isAsciiWhitespace).length ∧
      stop' = stop - (((slice buffer start stop).dropWhile Span.isAsciiWhitespace).reverse.takeWhile
        Span.isAsciiWhitespace).length := by
  have hkept := slice_trimmed start hstop
  obtain ⟨text, htext⟩ : ∃ text, slice buffer start stop = text := ⟨_, rfl⟩
  have hlength : text.length = stop - start := by
    rw [← htext, slice, List.length_drop, List.length_take, Nat.min_eq_left hstop]
  rw [htext] at hkept ⊢
  -- the first loop
  obtain ⟨a, ha⟩ : ∃ a, (text.takeWhile Span.isAsciiWhitespace).length = a := ⟨_, rfl⟩
  have ha_le : a ≤ stop - start := by
    rw [← ha, ← hlength]
    exact (List.takeWhile_sublist _).length_le
  have hfront : trimFront buffer start (stop - start) = .ok (start + a) := by
    rw [trimFront_ok _ _ (by omega), Nat.add_sub_cancel' h, htext, ha]
  -- the second loop is over what the first one leaves
  have hrest : slice buffer (start + a) stop = text.dropWhile Span.isAsciiWhitespace := by
    rw [slice, ← List.drop_drop, ← slice, htext]
    conv_lhs => rw [← List.takeWhile_append_dropWhile (p := Span.isAsciiWhitespace) (l := text)]
    rw [← ha, List.drop_left]
  obtain ⟨b, hb⟩ : ∃ b, ((text.dropWhile Span.isAsciiWhitespace).reverse.takeWhile
    Span.isAsciiWhitespace).length = b := ⟨_, rfl⟩
  have hb_le : b ≤ stop - (start + a) := by
    rw [← hb]
    refine (List.takeWhile_sublist _).length_le.trans ?_
    rw [List.length_reverse, ← hrest, slice, List.length_drop, List.length_take]
    omega
  have hback : trimBack buffer (start + a) (stop - (start + a)) = .ok (stop - b) := by
    rw [trimBack_ok _ _ (by omega), Nat.add_sub_cancel' (by omega), hrest, hb]
  rw [ha, hb] at hkept ⊢
  exact ⟨start + a, stop - b, hfront, hback, by omega, by omega, by omega, hkept, rfl, rfl⟩

end trim

end Coseva
