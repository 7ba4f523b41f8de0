/-
  Coseva — the scalar kernels read the fields of a record of RFC 4180, and decline none
  that their limits leave room for.

  * `Rest`: the fields of a record from a position on;
  * `rest_quoted`, `rest_bare`: the next field, as the kernels find it;
  * `PrefixParser.run_heads`: what every kernel reads that an engine calls for a record
    with quotes.
-/
import Coseva.OwnedKernels
import Coseva.RecordKernels

namespace Coseva

namespace Rfc

/-- An outcome behind some fields and some bytes. -/
def Outcome.move (front : List Bytes) (k : ℕ) : Outcome → Outcome
  | .record fields next => .record (front ++ fields) (k + next)
  | .malformed reason => .malformed reason
  | .unfinished => .unfinished

theorem run_move (front : List Bytes) (k : ℕ) (rest : Bytes) :
    ∀ (mode : Mode) (fields : List Bytes) (field : Bytes) (pos : ℕ),
      run mode (front ++ fields) field (k + pos) rest = (run mode fields field pos rest).move front k := by
  induction rest with
  | nil =>
    intro mode fields field pos
    simp only [run]
    split_ifs
    · rfl
    · rfl
  | cons byte rest ih =>
    intro mode fields field pos
    simp only [run]
    cases step mode field byte with
    | go mode field => exact ih mode fields field (pos + 1)
    | field field =>
      simp only [List.append_assoc]
      exact ih .start (fields ++ [field]) [] (pos + 1)
    | record field =>
      simp only [List.append_assoc]
      rfl
    | malformed reason => rfl

/-- The record has the fields in front and at least one more. -/
theorem exists_of_run {mode : Mode} {fields fields' : List Bytes} {field rest : Bytes} {pos next : ℕ}
    (h : run mode fields field pos rest = .record fields' next) :
    ∃ more, fields' = fields ++ more ∧ more ≠ [] ∧ run mode [] field pos rest = .record more next := by
  have hmove := run_move fields 0 rest mode [] field pos
  rw [List.append_nil, Nat.zero_add, h] at hmove
  rcases hrun : run mode [] field pos rest with ⟨more, next'⟩ | reason | _ <;> rw [hrun] at hmove
  · obtain ⟨rfl, rfl⟩ : fields' = fields ++ more ∧ next = next' := by
      simpa [Outcome.move] using hmove
    refine ⟨more, rfl, fun hnil => ?_, rfl⟩
    have := lt_length_of_run rest hrun
    rw [hnil] at this
    exact absurd this (Nat.lt_irrefl _)
  · cases hmove
  · cases hmove

/-- From `pos` on, where a field begins, the bytes are those fields of a record that ends in front
    of `next`. -/
def Rest (input : Bytes) (pos : ℕ) (fields : List Bytes) (next : ℕ) : Prop :=
  run .start [] [] pos (input.drop pos) = .record fields next

namespace Rest

variable {input : Bytes} {pos next k : ℕ} {fields : List Bytes}

theorem lt (h : Rest input pos fields next) : pos < next := (run_within _ h).1

theorem ne_nil (h : Rest input pos fields next) : fields ≠ [] := by
  obtain ⟨more, rfl, hne, -⟩ := exists_of_run h
  exact hne

/-- The next field ends in front of `stop`. -/
theorem field (stop : ℕ) (out : Bytes) (h : Rest input pos fields next)
    (hfield : ∀ front, run .start front [] pos (input.drop pos) =
      run .start (front ++ [out]) [] stop (input.drop stop)) :
    ∃ rest, fields = out :: rest ∧ Rest input stop rest next := by
  have hrun := (hfield []).symm.trans h
  obtain ⟨more, rfl, -, hmore⟩ := exists_of_run hrun
  exact ⟨more, rfl, hmore⟩

/-- The next field is the last one. -/
theorem last (stop : ℕ) (out : Bytes) (h : Rest input pos fields next)
    (hfield : ∀ front, run .start front [] pos (input.drop pos) = .record (front ++ [out]) stop) :
    fields = [out] ∧ next = stop := by
  have hrun := (hfield []).symm.trans h
  obtain ⟨rfl, rfl⟩ : [out] = fields ∧ stop = next := by simpa using hrun
  exact ⟨rfl, rfl⟩

theorem drop_iff : Rest (input.drop k) pos fields next ↔ Rest input (k + pos) fields (k + next) := by
  unfold Rest
  have hmove := run_move [] k (input.drop (k + pos)) .start [] [] pos
  rw [List.append_nil] at hmove
  rw [hmove, List.drop_drop]
  rcases run .start [] [] pos (input.drop (k + pos)) with ⟨fields', next'⟩ | reason | _
  · simp [Outcome.move]
  · simp [Outcome.move]
  · simp [Outcome.move]

theorem take_iff {n : ℕ} (hn : next ≤ n) :
    Rest (input.take n) pos fields next ↔ Rest input pos fields next := by
  constructor
  · intro h
    unfold Rest at h ⊢
    have hsplit : input.drop pos = (input.take n).drop pos ++ (input.drop pos).drop (n - pos) := by
      rw [List.drop_take, List.take_append_drop]
    rw [hsplit]
    exact run_append _ _ h
  · intro h
    have hlt := h.lt
    obtain ⟨-, hrun, -⟩ := run_within _ h
    unfold Rest
    have hfront : ((input.take n).drop pos).take (next - pos) = (input.drop pos).take (next - pos) := by
      rw [List.drop_take, List.take_take, Nat.min_eq_left (by omega)]
    rw [← List.take_append_drop (next - pos) ((input.take n).drop pos), hfront]
    exact run_append _ _ hrun

theorem record_iff : Rfc.record input = .record fields next ↔ Rest input 0 fields next := by
  rw [Rest, List.drop_zero]
  rfl

end Rest

end Rfc

namespace Structural

open Rfc

section scalar

variable {input : Bytes} {checkFieldLimit : Bool} {location next maxFieldBytes : ℕ}
  {fields : List Bytes}

/-! ## The next field -/

/-- The loop over the quotes of a field declines no record that fits. -/
theorem quotedLoop_isSome {front : List Bytes} (fuel : ℕ) : ∀ (bytes field : Bytes) (left cursor : ℕ),
    input.length < cursor + fuel →
    run .quoted front field cursor (input.drop cursor) = .record fields next →
    (checkFieldLimit = true → next ≤ cursor + left) →
    (quotedLoop checkFieldLimit input fuel bytes left cursor).isSome := by
  induction fuel with
  | zero =>
    intro bytes field left cursor hfuel hrun
    rw [List.drop_eq_nil_of_le (by omega)] at hrun
    cases hrun
  | succ fuel ih =>
    intro bytes field left cursor hfuel hrun hfit
    rw [quotedLoop]
    simp only [bind, Option.bind]
    rcases hfind : find1 34 (input.drop cursor) with _ | offset
    · have hnone : ∀ byte ∈ input.drop cursor, byte ≠ 34 := by
        intro byte hbyte
        simpa using findIdx_drop_none hfind byte hbyte
      rw [run_unterminated hnone] at hrun
      cases hrun
    obtain ⟨⟨byte, hbyte, hquote⟩, hbefore⟩ := findIdx_drop hfind
    obtain rfl : byte = 34 := by simpa using hquote
    have hin := (List.getElem?_eq_some_iff.1 hbyte).1
    have hsegment : Leads input .quoted field cursor .quoted
        (field ++ slice input cursor (cursor + offset)) (cursor + offset) := by
      refine leads_quoted (by omega) (by omega) fun i hi hi' hset => ?_
      simpa using hbefore i hi hi' 34 hset
    have hlength : (slice input cursor (cursor + offset)).length = offset := by
      rw [Rfc.slice_length (by omega), Nat.add_sub_cancel_left]
    rw [hsegment front] at hrun
    have hlt := (run_within _ hrun).1
    have hconsume : ∀ {left added}, (checkFieldLimit = true → added ≤ left) →
        consumeFieldRawBytes checkFieldLimit left added =
          some (if checkFieldLimit then left - added else left) := by
      intro left added hle
      unfold consumeFieldRawBytes
      cases checkFieldLimit with
      | false => rfl
      | true => simp [hle rfl]
    simp only
    rw [hconsume (fun hcheck => by have := hfit hcheck; omega)]
    simp only
    by_cases hdoubled : input[cursor + offset + 1]? = some 34
    swap
    · rw [if_neg hdoubled]
      rfl
    rw [if_pos hdoubled]
    rw [leads_doubled hbyte hdoubled front] at hrun
    have hlt' := (run_within _ hrun).1
    rw [hconsume (fun hcheck => by have := hfit hcheck; rw [if_pos hcheck]; omega)]
    simp only
    refine ih _ _ _ _ (by omega) hrun fun hcheck => ?_
    have := hfit hcheck
    rw [if_pos hcheck, if_pos hcheck]
    omega

/-- **The next field, in quotes.** -/
theorem rest_quoted (h : Rest input location fields next) (hquote : input[location]? = some 34)
    (hfit : checkFieldLimit = true → next ≤ location + maxFieldBytes) (bytes : Bytes) :
    ∃ out at' rest, quotedLoop checkFieldLimit input input.length bytes maxFieldBytes (location + 1) =
        some (bytes ++ out, at') ∧ location + 1 ≤ at' ∧ fields = out :: rest ∧
      (input[at' + 1]? = some 44 ∧ Rest input (at' + 2) rest next ∨
        input[at' + 1]? = some 10 ∧ rest = [] ∧ next = at' + 2 ∨
        input[at' + 1]? = some 13 ∧ input[at' + 2]? = some 10 ∧ rest = [] ∧ next = at' + 3) := by
  have hin := (List.getElem?_eq_some_iff.1 hquote).1
  have hopened : run .quoted [] [] (location + 1) (input.drop (location + 1)) = .record fields next :=
    (leads_opening hquote []).symm.trans h
  have hsome : (quotedLoop checkFieldLimit input input.length bytes maxFieldBytes (location + 1)).isSome :=
    quotedLoop_isSome input.length bytes [] maxFieldBytes (location + 1) (by omega) hopened
      fun hcheck => by have := hfit hcheck; omega
  obtain ⟨⟨bytes', at'⟩, hloop⟩ := Option.isSome_iff_exists.1 hsome
  have hreads := quotedLoop_reads input checkFieldLimit input.length bytes maxFieldBytes (location + 1)
    (by omega)
  rw [hloop] at hreads
  obtain ⟨out, rfl, hle, hclosing, hnot, hleads⟩ := hreads
  have hclosed : ∀ front, run .start front [] location (input.drop location) =
      run .closed front out (at' + 1) (input.drop (at' + 1)) :=
    ((leads_opening hquote).trans (hleads [])).trans (leads_closing hclosing)
  rcases run_closed ((hclosed []).symm.trans h) hnot with hcomma | hfeed | ⟨hreturn, hfeed⟩
  · obtain ⟨rest, rfl, hrest⟩ := h.field (at' + 2) out fun front => by
      rw [hclosed, drop_eq_cons hcomma, run_comma (Or.inr rfl)]
    exact ⟨out, at', rest, hloop, hle, rfl, Or.inl ⟨hcomma, hrest⟩⟩
  · obtain ⟨rfl, rfl⟩ := h.last (at' + 2) out fun front => by
      rw [hclosed, drop_eq_cons hfeed, run_lineFeed (Or.inr rfl) _ _ _ (by intro h; cases h)]
    exact ⟨out, at', [], hloop, hle, rfl, Or.inr (Or.inl ⟨hfeed, rfl, rfl⟩)⟩
  · obtain ⟨rfl, rfl⟩ := h.last (at' + 3) out fun front => by
      rw [hclosed, drop_eq_cons hreturn, drop_eq_cons hfeed, run_crLf (Or.inr rfl)]
    exact ⟨out, at', [], hloop, hle, rfl, Or.inr (Or.inr ⟨hreturn, hfeed, rfl, rfl⟩)⟩

/-- **The next field, without quotes.** -/
theorem rest_bare {first : UInt8} (h : Rest input location fields next)
    (hfirst : input[location]? = some first) (hquoted : first ≠ 34) :
    ∃ offset rest, find3 44 34 10 (input.drop location) = some offset ∧ location + offset < next ∧
      (input[location + offset]? = some 44 ∧ fields = slice input location (location + offset) :: rest ∧
          Rest input (location + offset + 1) rest next ∨
        input[location + offset]? = some 10 ∧ rest = [] ∧ next = location + offset + 1 ∧
          fields = [slice input location (lastEnd input location (location + offset))]) := by
  have hstart : Leads input .start [] location .unquoted [] location := leads_start hfirst hquoted
  rcases hfind : find3 44 34 10 (input.drop location) with _ | offset
  · have hend := run_bare [] (input.drop location) [] (fun byte hbyte => by
      have := findIdx_drop_none hfind byte hbyte
      simp only [Bool.or_eq_false_iff, beq_eq_false_iff_ne, ne_eq] at this
      exact ⟨this.1.2, this.1.1, this.2⟩) [] location
    rw [List.append_nil] at hend
    rw [Rest, hstart [], hend] at h
    cases h
  obtain ⟨⟨byte, hbyte, hfound⟩, hbefore⟩ := findIdx_drop hfind
  have hin := (List.getElem?_eq_some_iff.1 hbyte).1
  have hbare : ∀ stop, location ≤ stop → stop ≤ location + offset →
      Leads input .start [] location .unquoted (slice input location stop) stop := by
    intro stop hle hle'
    refine hstart.trans ?_
    refine leads_bare hle (by omega) fun i hi hi' other hother => ?_
    have := hbefore i hi (by omega) other hother
    simp only [Bool.or_eq_false_iff, beq_eq_false_iff_ne, ne_eq] at this
    exact ⟨this.1.2, this.1.1, this.2⟩
  have hrun := (hbare _ (Nat.le_add_right _ _) le_rfl []).symm.trans h
  have hlt := (run_within _ hrun).1
  obtain hcomma | hquote | hfeed : byte = 44 ∨ byte = 34 ∨ byte = 10 := by
    simp only [Bool.or_eq_true, beq_iff_eq] at hfound
    tauto
  · subst hcomma
    obtain ⟨rest, rfl, hrest⟩ := h.field (location + offset + 1)
        (slice input location (location + offset)) fun front => by
      rw [hbare _ (Nat.le_add_right _ _) le_rfl front, drop_eq_cons hbyte, run_comma (Or.inl rfl)]
    exact ⟨offset, rest, rfl, hlt, Or.inl ⟨hbyte, rfl, hrest⟩⟩
  · subst hquote
    rw [drop_eq_cons hbyte] at hrun
    cases hrun
  · subst hfeed
    have hend : location ≤ lastEnd input location (location + offset) ∧
        lastEnd input location (location + offset) ≤ location + offset := by
      unfold lastEnd
      split_ifs
      · omega
      · omega
    obtain ⟨rfl, rfl⟩ := h.last _ _ (run_last hbyte (Or.inl ⟨rfl, hbare _ hend.1 hend.2⟩))
    exact ⟨offset, [], rfl, hlt, Or.inr ⟨hbyte, rfl, rfl, rfl⟩⟩

/-! ## Whole records, and their heads -/

theorem finishField_some {bytes : Bytes} {ends : List ℕ} {maxFields : ℕ} (h : ends.length < maxFields) :
    finishField bytes ends maxFields = some (ends ++ [bytes.length]) := if_neg (Nat.not_le.2 h)

theorem not_tooLong {segment : Bytes} (h : checkFieldLimit = true → segment.length ≤ maxFieldBytes) :
    tooLong checkFieldLimit maxFieldBytes segment = false := by
  unfold tooLong
  cases checkFieldLimit with
  | false => rfl
  | true => simpa using h rfl

/-- What a kernel gives that reads the fields from `pos` on, behind those of a storage: all of them,
    or some, and where the others begin. -/
def Heads (input : Bytes) (pos : ℕ) (fields : List Bytes) (next : ℕ) (parts : Bytes × List ℕ) :
    ℕ × Bool × Bytes × List ℕ → Prop
  | (location, finished, parts') => ∃ heads tail, fields = heads ++ tail ∧
      parts' = pushFields parts heads ∧ pos ≤ location ∧ (input[pos]? = some 34 → pos < location) ∧
      if finished then tail = [] ∧ location = next else Rest input location tail next

section heads

variable {pos stop : ℕ} {bytes out : Bytes} {ends : List ℕ} {rest : List Bytes}

/-- Behind the next field. -/
theorem Heads.cons {r : ℕ × Bool × Bytes × List ℕ}
    (h : Heads input stop rest next (bytes ++ out, ends ++ [(bytes ++ out).length]) r) (hlt : pos < stop) :
    Heads input pos (out :: rest) next (bytes, ends) r := by
  obtain ⟨heads, tail, rfl, hparts, hle, -, hend⟩ := h
  exact ⟨out :: heads, tail, rfl, hparts, by omega, fun _ => by omega, hend⟩

theorem heads_last (hlt : pos < next) :
    Heads input pos [out] next (bytes, ends)
      (next, true, bytes ++ out, ends ++ [(bytes ++ out).length]) :=
  ⟨[out], [], rfl, rfl, hlt.le, fun _ => hlt, rfl, rfl⟩

theorem heads_stop (h : Rest input stop rest next) (hlt : pos < stop) :
    Heads input pos (out :: rest) next (bytes, ends)
      (stop, false, bytes ++ out, ends ++ [(bytes ++ out).length]) :=
  ⟨[out], rest, rfl, rfl, hlt.le, fun _ => hlt, h⟩

end heads

/-- A kernel within its limits. -/
def Fits (checkFieldLimit : Bool) (maxFieldBytes maxFields pos next : ℕ) (fields : List Bytes)
    (ends : List ℕ) : Prop :=
  (checkFieldLimit = true → next ≤ pos + maxFieldBytes) ∧ ends.length + fields.length ≤ maxFields

theorem Fits.cons {maxFields pos : ℕ} {out : Bytes} {rest : List Bytes} {ends : List ℕ} (stop n : ℕ)
    (h : Fits checkFieldLimit maxFieldBytes maxFields pos next (out :: rest) ends) (hle : pos ≤ stop) :
    ends.length < maxFields ∧
      Fits checkFieldLimit maxFieldBytes maxFields stop next rest (ends ++ [n]) := by
  obtain ⟨hbytes, hfields⟩ := h
  rw [List.length_cons] at hfields
  refine ⟨by omega, fun hcheck => by have := hbytes hcheck; omega, ?_⟩
  rw [List.length_append, List.length_singleton]
  omega

variable {maxFields : ℕ}

theorem slice_length_le (input : Bytes) (start stop : ℕ) : (slice input start stop).length ≤ stop - start := by
  rw [slice, List.length_drop, List.length_take]
  omega

/-- The segment of a field without quotes is not too long. -/
theorem Fits.not_tooLong {pos stop : ℕ} {ends : List ℕ}
    (h : Fits checkFieldLimit maxFieldBytes maxFields pos next fields ends) (hlt : stop ≤ next) :
    tooLong checkFieldLimit maxFieldBytes (slice input pos stop) = false := by
  refine Structural.not_tooLong fun hcheck => ?_
  have := h.1 hcheck
  have := slice_length_le input pos stop
  omega

theorem byteAt_eq {pos : ℕ} {byte : UInt8} (h : input[pos]? = some byte) : byteAt input pos = byte := by
  rw [byteAt, List.getD_eq_getElem?_getD, h, Option.getD_some]

/-- The scalar kernel declines no record that fits. -/
theorem recordLoop_complete (fuel : ℕ) : ∀ (location : ℕ) (bytes : Bytes) (ends : List ℕ)
    (fields : List Bytes), input.length < location + fuel → Rest input location fields next →
    Fits checkFieldLimit maxFieldBytes maxFields location next fields ends →
    recordLoop checkFieldLimit input maxFieldBytes maxFields fuel location bytes ends =
      some (next, pushFields (bytes, ends) fields) := by
  induction fuel with
  | zero =>
    intro location bytes ends fields hfuel h
    rw [Rest, List.drop_eq_nil_of_le (by omega)] at h
    cases h
  | succ fuel ih =>
    intro location bytes ends fields hfuel h hfits
    rw [recordLoop]
    simp only [bind, Option.bind]
    rcases hfirst : input[location]? with _ | first
    · rw [Rest, List.drop_eq_nil_of_le (List.getElem?_eq_none_iff.1 hfirst)] at h
      cases h
    simp only
    by_cases hquoted : first = 34
    · subst hquoted
      obtain ⟨out, at', rest, hloop, hle, rfl, hends⟩ := rest_quoted h hfirst hfits.1 bytes
      rw [if_pos rfl, hloop]
      simp only
      obtain ⟨hroom, hfits'⟩ := hfits.cons (at' + 2) (bytes ++ out).length (by omega)
      rw [finishField_some hroom]
      rcases hends with ⟨hcomma, hrest⟩ | ⟨hfeed, rfl, rfl⟩ | ⟨hreturn, hfeed, rfl, rfl⟩
      · simp only [hcomma]
        exact ih (at' + 2) _ _ _ (by omega) hrest hfits'
      · simp only [hfeed]
        rfl
      · simp only [hreturn, hfeed, if_true]
        rfl
    · obtain ⟨offset, rest, hfind, hlt, hends⟩ := rest_bare h hfirst hquoted
      have hlast : lastEnd input location (location + offset) ≤ next := by
        unfold lastEnd
        split_ifs
        · omega
        · omega
      rw [if_neg hquoted, hfind]
      rcases hends with ⟨hcomma, rfl, hrest⟩ | ⟨hfeed, rfl, rfl, rfl⟩
      · obtain ⟨hroom, hfits'⟩ := hfits.cons (location + offset + 1)
          (bytes ++ slice input location (location + offset)).length (by omega)
        simp only [byteAt_eq hcomma, show (44 : UInt8) ≠ 34 by decide, show (44 : UInt8) ≠ 10 by decide,
          false_and, if_false, hfits.not_tooLong hlt.le, Bool.false_eq_true, finishField_some hroom]
        exact ih (location + offset + 1) _ _ _ (by omega) hrest hfits'
      · simp only [byteAt_eq hfeed, show (10 : UInt8) ≠ 34 by decide, true_and, if_false, ite_lastEnd,
          hfits.not_tooLong hlast, Bool.false_eq_true, if_true,
          finishField_some (show ends.length < maxFields from hfits.2)]
        rfl

/-- The kernel for the head of a record that opens with a quote. -/
theorem quotedPrefixLoop_heads (fuel : ℕ) : ∀ (location : ℕ) (bytes : Bytes) (ends : List ℕ)
    (fields : List Bytes), input.length < location + fuel → Rest input location fields next →
    Fits checkFieldLimit maxFieldBytes maxFields location next fields ends →
    ∃ r, quotedPrefixLoop checkFieldLimit input maxFieldBytes maxFields fuel location bytes ends = some r ∧
      Heads input location fields next (bytes, ends) r := by
  induction fuel with
  | zero =>
    intro location bytes ends fields hfuel h
    rw [Rest, List.drop_eq_nil_of_le (by omega)] at h
    cases h
  | succ fuel ih =>
    intro location bytes ends fields hfuel h hfits
    rw [quotedPrefixLoop]
    simp only [bind, Option.bind]
    rcases hfirst : input[location]? with _ | first
    · rw [Rest, List.drop_eq_nil_of_le (List.getElem?_eq_none_iff.1 hfirst)] at h
      cases h
    simp only
    by_cases hquoted : first = 34
    · subst hquoted
      obtain ⟨out, at', rest, hloop, hle, rfl, hends⟩ := rest_quoted h hfirst hfits.1 bytes
      obtain ⟨hroom, hfits'⟩ := hfits.cons (at' + 2) (bytes ++ out).length (by omega)
      rw [if_neg (not_not.2 rfl), hloop]
      simp only
      rw [finishField_some hroom]
      rcases hends with ⟨hcomma, hrest⟩ | ⟨hfeed, rfl, rfl⟩ | ⟨hreturn, hfeed, rfl, rfl⟩
      · obtain ⟨r, hr, hheads⟩ := ih (at' + 2) (bytes ++ out) (ends ++ [(bytes ++ out).length]) rest
          (by omega) hrest hfits'
        simp only [hcomma]
        exact ⟨r, hr, hheads.cons (by omega)⟩
      · simp only [hfeed]
        exact ⟨_, rfl, heads_last h.lt⟩
      · simp only [hreturn, hfeed, if_true]
        exact ⟨_, rfl, heads_last h.lt⟩
    · rw [if_pos hquoted]
      refine ⟨_, rfl, [], fields, rfl, rfl, le_rfl, fun hquote => ?_, h⟩
      exact absurd (Option.some.inj (hfirst.symm.trans hquote)) hquoted

/-- The kernel that reads up to the first quoted field, and it. -/
theorem interiorPrefixLoop_heads (fuel : ℕ) : ∀ (location : ℕ) (bytes : Bytes) (ends : List ℕ)
    (fields : List Bytes), input.length < location + fuel → Rest input location fields next →
    Fits checkFieldLimit maxFieldBytes maxFields location next fields ends →
    ∃ r, interiorPrefixLoop checkFieldLimit input maxFieldBytes maxFields fuel location bytes ends =
        some r ∧ Heads input location fields next (bytes, ends) r := by
  induction fuel with
  | zero =>
    intro location bytes ends fields hfuel h
    rw [Rest, List.drop_eq_nil_of_le (by omega)] at h
    cases h
  | succ fuel ih =>
    intro location bytes ends fields hfuel h hfits
    rw [interiorPrefixLoop]
    simp only [bind, Option.bind]
    rcases hfirst : input[location]? with _ | first
    · rw [Rest, List.drop_eq_nil_of_le (List.getElem?_eq_none_iff.1 hfirst)] at h
      cases h
    simp only
    by_cases hquoted : first = 34
    · subst hquoted
      obtain ⟨out, at', rest, hloop, hle, rfl, hends⟩ := rest_quoted h hfirst hfits.1 bytes
      obtain ⟨hroom, -⟩ := hfits.cons (at' + 2) 0 (by omega)
      rw [if_neg (not_not.2 rfl), hloop]
      simp only
      rw [finishField_some hroom]
      rcases hends with ⟨hcomma, hrest⟩ | ⟨hfeed, rfl, rfl⟩ | ⟨hreturn, hfeed, rfl, rfl⟩
      · simp only [hcomma]
        exact ⟨_, rfl, heads_stop hrest (by omega)⟩
      · simp only [hfeed]
        exact ⟨_, rfl, heads_last h.lt⟩
      · simp only [hreturn, hfeed, if_true]
        exact ⟨_, rfl, heads_last h.lt⟩
    · obtain ⟨offset, rest, hfind, hlt, hends⟩ := rest_bare h hfirst hquoted
      have hlast : lastEnd input location (location + offset) ≤ next := by
        unfold lastEnd
        split_ifs
        · omega
        · omega
      rw [if_pos hquoted, hfind]
      rcases hends with ⟨hcomma, rfl, hrest⟩ | ⟨hfeed, rfl, rfl, rfl⟩
      · obtain ⟨hroom, hfits'⟩ := hfits.cons (location + offset + 1)
          (bytes ++ slice input location (location + offset)).length (by omega)
        obtain ⟨r, hr, hheads⟩ := ih (location + offset + 1)
          (bytes ++ slice input location (location + offset)) _ rest (by omega) hrest hfits'
        simp only [byteAt_eq hcomma, show (44 : UInt8) ≠ 34 by decide, show (44 : UInt8) ≠ 10 by decide,
          false_and, if_false, hfits.not_tooLong hlt.le, Bool.false_eq_true, finishField_some hroom]
        exact ⟨r, hr, hheads.cons (by omega)⟩
      · simp only [byteAt_eq hfeed, show (10 : UInt8) ≠ 34 by decide, true_and, if_false, ite_lastEnd,
          hfits.not_tooLong hlast, Bool.false_eq_true, if_true,
          finishField_some (show ends.length < maxFields from hfits.2)]
        exact ⟨_, rfl, heads_last h.lt⟩

end scalar

end Structural

/-! ## Behind the function pointers -/

section pointers

open Rfc Structural

variable {input : Bytes} {output : Structural.Output} {next : ℕ} {fields : List Bytes}
  (h : Rest input 0 fields next) (hbytes : next ≤ Limits.default.maxFieldBytes)
  (hfields : output.ends.length + fields.length ≤ Limits.default.maxFields)

/-- The bytes that `max_record_bytes` leaves. -/
theorem take_min_length (n : ℕ) : input.take (min input.length n) = input.take n := by
  rw [List.take_eq_take_iff]
  omega

include hbytes in
theorem next_le_maxRecordBytes : next ≤ Limits.default.maxRecordBytes := hbytes.trans (by decide)

include h hbytes hfields in
/-- The scalar kernel reads every record that its limits leave room for. -/
theorem tryParseDefaultRecord_complete (checkFieldLimit : Bool) :
    tryParseDefaultRecord checkFieldLimit input output =
      some (next, { output with
        bytes := (pushFields (output.bytes, output.ends) fields).1
        ends := (pushFields (output.bytes, output.ends) fields).2 }) := by
  simp only [tryParseDefaultRecord, Structural.tryParseDefaultRecord, bind, Option.bind,
    take_min_length]
  have hrest := (Rest.take_iff (next_le_maxRecordBytes hbytes)).2 h
  rw [recordLoop_complete _ 0 output.bytes output.ends fields (Nat.lt_add_left _ (Nat.lt_succ_self _))
    hrest ⟨fun _ => by omega, hfields⟩]
  rfl

theorem heads_of_take {n pos : ℕ} {parts : Bytes × List ℕ} {r : ℕ × Bool × Bytes × List ℕ}
    (hr : Heads (input.take n) pos fields next parts r) (hn : next ≤ n) (hlt : pos < next) :
    Heads input pos fields next parts r := by
  obtain ⟨heads, tail, heq, hparts, hle, hquote, hend⟩ := hr
  refine ⟨heads, tail, heq, hparts, hle, fun hfirst => hquote ?_, ?_⟩
  · rw [List.getElem?_take, if_pos (by omega), hfirst]
  · split_ifs at hend ⊢
    · exact hend
    · exact (Rest.take_iff hn).1 hend

include h hbytes in
/-- A loop over the heads of a record, on a storage. -/
theorem onStorage_heads (loop : Bytes → ℕ → ℕ → Bytes → List ℕ → Option (ℕ × Bool × Bytes × List ℕ))
    (hloop : ∀ input, Rest input 0 fields next →
      ∃ r, loop input (input.length + 1) 0 output.bytes output.ends = some r ∧
        Heads input 0 fields next (output.bytes, output.ends) r) :
    ∃ location finished output', onStorage input loop Limits.default.maxRecordBytes output =
        some ((location, finished), output') ∧ output'.textValidity = output.textValidity ∧
      Heads input 0 fields next (output.bytes, output.ends)
        (location, finished, output'.bytes, output'.ends) := by
  have hn := next_le_maxRecordBytes hbytes
  obtain ⟨⟨location, finished, bytes, ends⟩, hr, hheads⟩ := hloop _ ((Rest.take_iff hn).2 h)
  refine ⟨location, finished, { output with bytes, ends }, ?_, rfl, heads_of_take hheads hn h.lt⟩
  simp only [onStorage, bind, Option.bind, take_min_length]
  rw [hr]
  rfl

/-- What a kernel for heads gives. -/
def RunsHeads (input : Bytes) (fields : List Bytes) (next : ℕ) (output : Structural.Output)
    (r : Except Stop ((ℕ × Bool) × Structural.Output)) : Prop :=
  ∃ location finished output', r = .ok ((location, finished), output') ∧
    output'.textValidity = output.textValidity ∧
    Heads input 0 fields next (output.bytes, output.ends)
      (location, finished, output'.bytes, output'.ends)

include h hbytes hfields

theorem tryParseDefaultQuotedPrefix_heads (checkFieldLimit : Bool) :
    RunsHeads input fields next output (tryParseDefaultQuotedPrefix checkFieldLimit input output) := by
  obtain ⟨location, finished, output', hr, hheads⟩ := onStorage_heads h hbytes
    (fun input => quotedPrefixLoop checkFieldLimit input Limits.default.maxFieldBytes Limits.default.maxFields)
    fun input hinput => quotedPrefixLoop_heads (input.length + 1) 0 output.bytes output.ends fields
      (Nat.lt_add_left _ (Nat.lt_succ_self _)) hinput ⟨fun _ => (Nat.zero_add _).symm ▸ hbytes, hfields⟩
  refine ⟨location, finished, output', ?_, hheads⟩
  rw [tryParseDefaultQuotedPrefix, Structural.tryParseDefaultQuotedPrefix, hr]
  rfl

theorem tryParseDefaultInteriorPrefix_heads (checkFieldLimit : Bool) :
    RunsHeads input fields next output (tryParseDefaultInteriorPrefix checkFieldLimit input output) := by
  obtain ⟨location, finished, output', hr, hheads⟩ := onStorage_heads h hbytes
    (fun input => interiorPrefixLoop checkFieldLimit input Limits.default.maxFieldBytes
      Limits.default.maxFields)
    fun input hinput => interiorPrefixLoop_heads (input.length + 1) 0 output.bytes output.ends fields
      (Nat.lt_add_left _ (Nat.lt_succ_self _)) hinput ⟨fun _ => (Nat.zero_add _).symm ▸ hbytes, hfields⟩
  refine ⟨location, finished, output', ?_, hheads⟩
  rw [tryParseDefaultInteriorPrefix, Structural.tryParseDefaultInteriorPrefix, hr]
  rfl

omit h hbytes hfields in
/-- The structural kernel accepts whole records, and only where it certifies does it say more of
    their text. -/
theorem structural_ok {avx2 checkFieldLimit preservePrefix certifyAscii flag : Bool}
    {maxFieldBytes : ℕ} {output' : Structural.Output}
    (hresult : tryParseDefaultQuotedRecordStructural avx2 checkFieldLimit preservePrefix certifyAscii
      input output maxFieldBytes = (.ok (next, flag), output')) :
    flag = true ∧ (certifyAscii = false → output'.textValidity = output.textValidity) := by
  unfold tryParseDefaultQuotedRecordStructural at hresult
  dsimp only at hresult
  iterate 4
    split at hresult
    · cases hresult
  split at hresult
  · cases hresult
  · cases hresult
    refine ⟨rfl, fun hcertify => ?_⟩
    simp only [hcertify, Bool.false_and, Bool.false_eq_true, if_false]

/-- Where the structural kernel declines a record, the scalar one reads it. -/
theorem tryParseDefaultStructuralAppending_heads (host : Host) (checkFieldLimit : Bool) :
    RunsHeads input fields next output
      (tryParseDefaultStructuralAppending host checkFieldLimit input output) := by
  have hwhole : ∀ output' : Structural.Output, output'.textValidity = output.textValidity →
      (output'.bytes, output'.ends) = pushFields (output.bytes, output.ends) fields →
      RunsHeads input fields next output (.ok ((next, true), output')) := by
    intro output' hvalidity hparts
    exact ⟨next, true, output', rfl, hvalidity, fields, [], (List.append_nil _).symm, hparts,
      Nat.zero_le _, fun _ => h.lt, rfl, rfl⟩
  have hreads := structural_reads host.structural checkFieldLimit true false input 0 output input.length
  simp only [List.drop_zero] at hreads
  obtain ⟨haccepts, -, hpanic, -⟩ := hreads
  unfold tryParseDefaultStructuralAppending
  rcases hresult : tryParseDefaultQuotedRecordStructural host.structural checkFieldLimit true false input
    output input.length with ⟨(_ | _) | ⟨next', flag⟩, output'⟩
  · simp only
    rw [tryParseDefaultRecord_complete h hbytes hfields]
    exact hwhole _ rfl rfl
  · rw [hresult] at hpanic
    exact absurd rfl hpanic
  · rw [hresult] at haccepts
    obtain ⟨fields', hrecord, hparts, -⟩ := haccepts next' flag rfl
    obtain ⟨rfl, rfl⟩ : fields' = fields ∧ next' = next := by
      simpa using hrecord.symm.trans (Rest.record_iff.2 h)
    obtain ⟨rfl, hvalidity⟩ := structural_ok hresult
    exact hwhole output' (hvalidity rfl) hparts

theorem PrefixParser.run_heads (host : Host) (parser : PrefixParser) :
    RunsHeads input fields next output (parser.run host input output) := by
  cases parser with
  | quoted checkFieldLimit => exact tryParseDefaultQuotedPrefix_heads h hbytes hfields checkFieldLimit
  | interior checkFieldLimit =>
    exact tryParseDefaultInteriorPrefix_heads h hbytes hfields checkFieldLimit
  | interiorWindowed => exact tryParseDefaultInteriorPrefix_heads h hbytes hfields _
  | structural checkFieldLimit =>
    exact tryParseDefaultStructuralAppending_heads h hbytes hfields host checkFieldLimit
  | structuralWindowed => exact tryParseDefaultStructuralAppending_heads h hbytes hfields host _

end pointers

end Coseva
