/-
  Coseva — the kernels of the default dialect agree: the one that searches byte by byte
  and the structural one read the record of RFC 4180.

  * `tryParseDefaultRecord_reads`: what the scalar kernel accepts, and that without a
    limit it declines nothing else;
  * `structural_reads`: the structural kernel, from any byte of a window.
-/
import Coseva.StructuralAgree

namespace Coseva

namespace Structural

open Rfc

section scalar

variable {input : Bytes} {checkFieldLimit : Bool}

/-! ## Searches -/

theorem findIdx_drop {p : UInt8 → Bool} {start offset : ℕ}
    (h : (input.drop start).findIdx? p = some offset) :
    (∃ byte, input[start + offset]? = some byte ∧ p byte = true) ∧
      ∀ i, start ≤ i → i < start + offset → ∀ byte, input[i]? = some byte → p byte = false := by
  rw [List.findIdx?_eq_some_iff_getElem] at h
  obtain ⟨hlt, hp, hbefore⟩ := h
  rw [List.length_drop] at hlt
  refine ⟨⟨_, List.getElem?_eq_getElem (by omega), by simpa using hp⟩, fun i hi hi' byte hbyte => ?_⟩
  obtain ⟨hin, rfl⟩ := List.getElem?_eq_some_iff.1 hbyte
  have := hbefore (i - start) (by omega)
  rw [List.getElem_drop] at this
  rw [← Bool.not_eq_true]
  intro htrue
  refine this ?_
  simpa [Nat.add_sub_cancel' hi] using htrue

theorem findIdx_drop_none {p : UInt8 → Bool} {start : ℕ} (h : (input.drop start).findIdx? p = none) :
    ∀ byte ∈ input.drop start, p byte = false := by
  rw [List.findIdx?_eq_none_iff] at h
  exact h

/-! ## Quoted fields -/

theorem consume_unlimited (h : checkFieldLimit = false) (left added : ℕ) :
    consumeFieldRawBytes checkFieldLimit left added = some left := by
  rw [consumeFieldRawBytes, h]
  rfl

theorem run_unterminated {cursor : ℕ} (h : ∀ byte ∈ input.drop cursor, byte ≠ 34)
    (fields : List Bytes) (field : Bytes) :
    run .quoted fields field cursor (input.drop cursor) = .malformed .unterminated := by
  have hrun := run_quoted fields (input.drop cursor) [] h field cursor
  rw [List.append_nil] at hrun
  rw [hrun]
  rfl

variable (input checkFieldLimit) in
/-- **The loop over the quotes of a field** finds the quote that closes it. -/
theorem quotedLoop_reads (fuel : ℕ) : ∀ (bytes : Bytes) (left cursor : ℕ),
    input.length < cursor + fuel →
    match quotedLoop checkFieldLimit input fuel bytes left cursor with
    | some (bytes', at') => ∃ out, bytes' = bytes ++ out ∧ cursor ≤ at' ∧ input[at']? = some 34 ∧
        input[at' + 1]? ≠ some 34 ∧
        ∀ field, Leads input .quoted field cursor .quoted (field ++ out) at'
    | none => checkFieldLimit = false → ∀ fields field,
        run .quoted fields field cursor (input.drop cursor) = .malformed .unterminated := by
  induction fuel with
  | zero =>
    intro bytes left cursor hfuel _ fields field
    exact run_unterminated (by rw [List.drop_eq_nil_of_le (by omega)]; exact nofun) fields field
  | succ fuel ih =>
    intro bytes left cursor hfuel
    rw [quotedLoop]
    simp only [bind, Option.bind]
    rcases hfind : find1 34 (input.drop cursor) with _ | offset
    · intro _ fields field
      exact run_unterminated (fun byte hbyte => by simpa using findIdx_drop_none hfind byte hbyte)
        fields field
    obtain ⟨⟨byte, hbyte, hquote⟩, hbefore⟩ := findIdx_drop hfind
    obtain rfl : byte = 34 := by simpa using hquote
    have hin := (List.getElem?_eq_some_iff.1 hbyte).1
    have hsegment : ∀ field, Leads input .quoted field cursor .quoted
        (field ++ slice input cursor (cursor + offset)) (cursor + offset) := by
      intro field
      refine leads_quoted (by omega) (by omega) fun i hi hi' hset => ?_
      simpa using hbefore i hi hi' 34 hset
    simp only
    rcases hleft : consumeFieldRawBytes checkFieldLimit left _ with _ | left'
    · intro hcheck
      rw [consume_unlimited hcheck] at hleft
      cases hleft
    simp only
    by_cases hdoubled : input[cursor + offset + 1]? = some 34
    swap
    · rw [if_neg hdoubled]
      exact ⟨_, rfl, by omega, hbyte, hdoubled, hsegment⟩
    rw [if_pos hdoubled]
    rcases hleft' : consumeFieldRawBytes checkFieldLimit left' 2 with _ | left''
    · intro hcheck
      rw [consume_unlimited hcheck] at hleft'
      cases hleft'
    -- behind the doubled quote
    have hpair : ∀ field, Leads input .quoted field cursor .quoted
        (field ++ slice input cursor (cursor + offset) ++ [34]) (cursor + offset + 2) :=
      fun field => (hsegment field).trans (leads_doubled hbyte hdoubled)
    have hnext := ih (bytes ++ slice input cursor (cursor + offset) ++ [34]) left''
      (cursor + offset + 2) (by omega)
    simp only
    generalize quotedLoop checkFieldLimit input fuel _ left'' (cursor + offset + 2) = r at hnext ⊢
    rcases r with _ | ⟨bytes', at'⟩
    · intro hcheck fields field
      rw [hpair field fields]
      exact hnext hcheck fields _
    · obtain ⟨out, rfl, hle, hat, hnot, hleads⟩ := hnext
      refine ⟨slice input cursor (cursor + offset) ++ [34] ++ out, ?_, by omega, hat, hnot,
        fun field => ?_⟩
      · simp only [List.append_assoc]
      · rw [← List.append_assoc, ← List.append_assoc]
        exact (hpair field).trans (hleads _)

/-! ## Records -/

/-- Behind a closed field that nothing proper follows, there is no record. -/
theorem run_closed {pos next : ℕ} {fields fields' : List Bytes} {field : Bytes}
    (h : run .closed fields field pos (input.drop pos) = .record fields' next)
    (hnot : input[pos]? ≠ some 34) : input[pos]? = some 44 ∨ input[pos]? = some 10 ∨
      input[pos]? = some 13 ∧ input[pos + 1]? = some 10 := by
  rcases hbyte : input[pos]? with _ | byte
  · rw [List.drop_eq_nil_of_le (List.getElem?_eq_none_iff.1 hbyte)] at h
    cases h
  rw [hbyte] at hnot
  rw [drop_eq_cons hbyte, run, step, if_neg fun h => hnot (by rw [h])] at h
  by_cases hcomma : byte = 44
  · exact Or.inl (by rw [hcomma])
  by_cases hfeed : byte = 10
  · exact Or.inr (Or.inl (by rw [hfeed]))
  rw [if_neg hcomma, if_neg hfeed] at h
  split_ifs at h with hreturn
  · refine Or.inr (Or.inr ⟨by rw [hreturn], ?_⟩)
    rcases hnext : input[pos + 1]? with _ | byte'
    · rw [List.drop_eq_nil_of_le (List.getElem?_eq_none_iff.1 hnext)] at h
      cases h
    · simp only at h
      rw [drop_eq_cons hnext, run, step] at h
      split_ifs at h with hfeed'
      rw [hfeed']

variable (input checkFieldLimit) in
/-- What a kernel gives for the record whose field begins at `location`: the storage with the
    fields, or nothing, which without a field limit is for want of a record or of room. -/
def Reads (maxFields location : ℕ) (bytes : Bytes) (ends : List ℕ) :
    Option (ℕ × Bytes × List ℕ) → Prop
  | some (next, parts) => ∃ more, parts = pushFields (bytes, ends) more ∧
      ∀ fields, run .start fields [] location (input.drop location) = .record (fields ++ more) next
  | none => checkFieldLimit = false → ∀ fields fields' next,
      run .start fields [] location (input.drop location) = .record fields' next →
        maxFields + fields.length < ends.length + fields'.length

section reads

variable {maxFields location next : ℕ} {bytes out : Bytes} {ends ends' : List ℕ}

theorem reads_none (h : checkFieldLimit = false → ∀ fields fields' next,
      run .start fields [] location (input.drop location) ≠ .record fields' next) :
    Reads input checkFieldLimit maxFields location bytes ends none :=
  fun hcheck fields fields' next hrun => absurd hrun (h hcheck fields fields' next)

theorem reads_full (h : finishField bytes ends maxFields = none) {bytes' : Bytes} :
    Reads input checkFieldLimit maxFields location bytes' ends none := by
  intro _ fields fields' next hrun
  have := lt_length_of_run _ hrun
  unfold finishField at h
  split_ifs at h
  omega

theorem finishField_eq (h : finishField (bytes ++ out) ends maxFields = some ends') :
    (bytes ++ out, ends') = pushFields (bytes, ends) [out] ∧ ends'.length = ends.length + 1 := by
  unfold finishField at h
  split_ifs at h
  obtain rfl := Option.some.inj h
  exact ⟨rfl, by rw [List.length_append]; rfl⟩

/-- The last field. -/
theorem reads_last (h : finishField (bytes ++ out) ends maxFields = some ends')
    (hrun : ∀ fields, run .start fields [] location (input.drop location) =
      .record (fields ++ [out]) next) :
    Reads input checkFieldLimit maxFields location bytes ends (some (next, bytes ++ out, ends')) :=
  ⟨[out], (finishField_eq h).1, hrun⟩

/-- A field, and what is behind its comma. -/
theorem reads_comma {comma : ℕ} (h : finishField (bytes ++ out) ends maxFields = some ends')
    (hrun : ∀ fields, run .start fields [] location (input.drop location) =
      run .start (fields ++ [out]) [] (comma + 1) (input.drop (comma + 1)))
    {r : Option (ℕ × Bytes × List ℕ)}
    (hrest : Reads input checkFieldLimit maxFields (comma + 1) (bytes ++ out) ends' r) :
    Reads input checkFieldLimit maxFields location bytes ends r := by
  obtain ⟨hpushed, hlength⟩ := finishField_eq h
  rcases r with _ | ⟨next, parts⟩
  · intro hcheck fields fields' next hrecord
    rw [hrun] at hrecord
    have := hrest hcheck _ _ _ hrecord
    rw [List.length_append, List.length_singleton] at this
    omega
  · obtain ⟨more, rfl, hmore⟩ := hrest
    refine ⟨out :: more, ?_, fun fields => ?_⟩
    · rw [hpushed, ← pushFields_append]
      rfl
    · rw [hrun, hmore, List.append_assoc]
      rfl

end reads

variable (input checkFieldLimit) in
/-- **The loop of the scalar kernel** reads a record field by field. -/
theorem recordLoop_reads (maxFieldBytes maxFields fuel : ℕ) : ∀ (location : ℕ) (bytes : Bytes)
    (ends : List ℕ), input.length < location + fuel →
    Reads input checkFieldLimit maxFields location bytes ends
      (recordLoop checkFieldLimit input maxFieldBytes maxFields fuel location bytes ends) := by
  induction fuel with
  | zero =>
    intro location bytes ends hfuel
    refine reads_none fun _ fields fields' next hrun => ?_
    rw [List.drop_eq_nil_of_le (by omega)] at hrun
    cases hrun
  | succ fuel ih =>
    intro location bytes ends hfuel
    rw [recordLoop]
    simp only [bind, Option.bind]
    rcases hfirst : input[location]? with _ | first
    · refine reads_none fun _ fields fields' next hrun => ?_
      rw [List.drop_eq_nil_of_le (List.getElem?_eq_none_iff.1 hfirst)] at hrun
      cases hrun
    simp only
    by_cases hquoted : first = 34
    · -- a quoted field
      subst hquoted
      have hin := (List.getElem?_eq_some_iff.1 hfirst).1
      rw [if_pos rfl]
      have hloop := quotedLoop_reads input checkFieldLimit input.length bytes
        maxFieldBytes (location + 1) (by omega)
      rcases hresult : quotedLoop checkFieldLimit input input.length bytes maxFieldBytes (location + 1)
        with _ | ⟨bytes', at'⟩
      · rw [hresult] at hloop
        refine reads_none fun hcheck fields fields' next hrun => ?_
        rw [leads_opening hfirst fields, hloop hcheck] at hrun
        cases hrun
      rw [hresult] at hloop
      obtain ⟨out, rfl, hle, hclosing, hnot, hleads⟩ := hloop
      have hclosed : ∀ fields, run .start fields [] location (input.drop location) =
          run .closed fields out (at' + 1) (input.drop (at' + 1)) := fun fields =>
        (((leads_opening hfirst).trans (hleads [])).trans (leads_closing hclosing)) fields
      simp only
      rcases hfinish : finishField (bytes ++ out) ends maxFields with _ | ends'
      · exact reads_full hfinish
      simp only
      have hno : (∀ fields fields' next,
          run .closed fields out (at' + 1) (input.drop (at' + 1)) ≠ .record fields' next) →
          Reads input checkFieldLimit maxFields location bytes ends none := fun hno =>
        reads_none fun _ fields fields' next hrun => hno fields fields' next (hclosed fields ▸ hrun)
      split
      · rename_i hcomma
        refine reads_comma hfinish (fun fields => ?_) (ih (at' + 1 + 1) (bytes ++ out) ends' (by omega))
        rw [hclosed, drop_eq_cons hcomma, run_comma (Or.inr rfl)]
      · rename_i hfeed
        refine reads_last hfinish fun fields => ?_
        rw [hclosed, drop_eq_cons hfeed, run_lineFeed (Or.inr rfl) _ _ _ nofun]
      · rename_i hreturn
        split_ifs with hfeed
        · refine reads_last hfinish fun fields => ?_
          rw [hclosed, drop_eq_cons hreturn, drop_eq_cons hfeed, run_crLf (Or.inr rfl)]
        · refine hno fun fields fields' next hrun => ?_
          rcases run_closed hrun hnot with h | h | ⟨-, h⟩
          · rw [hreturn] at h
            cases h
          · rw [hreturn] at h
            cases h
          · exact hfeed h
      · rename_i hcomma hfeed hreturn
        refine hno fun fields fields' next hrun => ?_
        rcases run_closed hrun hnot with h | h | ⟨h, -⟩
        · exact hcomma h
        · exact hfeed h
        · exact hreturn h
    · -- a bare field
      rw [if_neg hquoted]
      have hstart : ∀ field, Leads input .start field location .unquoted field location :=
        fun field => leads_start hfirst hquoted
      rcases hfind : find3 44 34 10 (input.drop location) with _ | offset
      · have hbare := findIdx_drop_none hfind
        refine reads_none fun _ fields fields' next hrun => ?_
        have hend := run_bare fields (input.drop location) [] (fun byte hbyte => by
          have := hbare byte hbyte
          simp only [Bool.or_eq_false_iff, beq_eq_false_iff_ne, ne_eq] at this
          exact ⟨this.1.2, this.1.1, this.2⟩) [] location
        rw [List.append_nil] at hend
        rw [hstart [] fields, hend] at hrun
        cases hrun
      obtain ⟨⟨byte, hbyte, hfound⟩, hbefore⟩ := findIdx_drop hfind
      have hin := (List.getElem?_eq_some_iff.1 hbyte).1
      have hat : byteAt input (location + offset) = byte := by
        rw [byteAt, List.getD_eq_getElem?_getD, hbyte, Option.getD_some]
      have hbare : ∀ stop, location ≤ stop → stop ≤ location + offset →
          Leads input .start [] location .unquoted (slice input location stop) stop := by
        intro stop hle hle'
        refine (hstart []).trans ?_
        refine leads_bare hle (by omega) fun i hi hi' other hother => ?_
        have := hbefore i hi (by omega) other hother
        simp only [Bool.or_eq_false_iff, beq_eq_false_iff_ne, ne_eq] at this
        exact ⟨this.1.2, this.1.1, this.2⟩
      simp only [hat]
      by_cases hquote : byte = 34
      · subst hquote
        rw [if_pos rfl]
        refine reads_none fun _ fields fields' next hrun => ?_
        rw [hbare _ (by omega) le_rfl fields, drop_eq_cons hbyte, run] at hrun
        cases hrun
      rw [if_neg hquote]
      have hlong : ∀ {segment}, tooLong checkFieldLimit maxFieldBytes segment = true →
          Reads input checkFieldLimit maxFields location bytes ends none := by
        intro segment h
        refine reads_none fun hcheck => ?_
        rw [tooLong, hcheck] at h
        cases h
      by_cases hfeed : byte = 10
      · -- the last field
        subst hfeed
        simp only [true_and, ite_lastEnd, if_true]
        have hend : location ≤ lastEnd input location (location + offset) ∧
            lastEnd input location (location + offset) ≤ location + offset := by
          unfold lastEnd
          split_ifs
          · omega
          · omega
        by_cases hlimit : tooLong checkFieldLimit maxFieldBytes
            (slice input location (lastEnd input location (location + offset))) = true
        · rw [if_pos hlimit]
          exact hlong hlimit
        rw [if_neg hlimit]
        rcases hfinish : finishField (bytes ++ slice input location
            (lastEnd input location (location + offset))) ends maxFields with _ | ends'
        · exact reads_full hfinish
        · exact reads_last hfinish
            (run_last hbyte (Or.inl ⟨rfl, hbare _ hend.1 hend.2⟩))
      · obtain rfl : byte = 44 := by
          simp only [Bool.or_eq_true, beq_iff_eq] at hfound
          exact (hfound.resolve_right hfeed).resolve_right hquote
        simp only [hfeed, false_and, if_false]
        by_cases hlimit : tooLong checkFieldLimit maxFieldBytes
            (slice input location (location + offset)) = true
        · rw [if_pos hlimit]
          exact hlong hlimit
        rw [if_neg hlimit]
        rcases hfinish : finishField (bytes ++ slice input location (location + offset)) ends maxFields
          with _ | ends'
        · exact reads_full hfinish
        · refine reads_comma hfinish (fun fields => ?_) (ih (location + offset + 1) _ ends' (by omega))
          rw [hbare _ (by omega) le_rfl fields, drop_eq_cons hbyte, run_comma (Or.inl rfl)]

end scalar

/-- **The scalar kernel**: a record that it accepts is the one at the front of the bytes, and
    without a field limit it accepts every record that its other limits leave room for. -/
theorem tryParseDefaultRecord_reads (checkFieldLimit : Bool) (input : Bytes) (output : Output)
    (maxRecordBytes maxFieldBytes maxFields : ℕ) :
    match tryParseDefaultRecord checkFieldLimit input output maxRecordBytes maxFieldBytes maxFields with
    | some (next, output') => ∃ fields, Rfc.record input = .record fields next ∧
        (output'.bytes, output'.ends) = pushFields (output.bytes, output.ends) fields
    | none => checkFieldLimit = false → ∀ fields next, Rfc.record input = .record fields next →
        next ≤ maxRecordBytes → maxFields < output.ends.length + fields.length := by
  unfold tryParseDefaultRecord
  simp only [bind, Option.bind]
  generalize hfront : input.take (min input.length maxRecordBytes) = front
  have hsplit : input = front ++ input.drop (min input.length maxRecordBytes) := by
    rw [← hfront, List.take_append_drop]
  have hloop := recordLoop_reads front checkFieldLimit maxFieldBytes maxFields
    (front.length + 1) 0 output.bytes output.ends (by omega)
  rcases hresult : recordLoop checkFieldLimit front maxFieldBytes maxFields (front.length + 1) 0
    output.bytes output.ends with _ | ⟨next, parts⟩
  · rw [hresult] at hloop
    intro hcheck fields next hrecord hnext
    obtain ⟨-, hrun, -⟩ := run_within input hrecord
    have hlonger : front = input.take (next - 0) ++ front.drop next := by
      have htake : front.take next = input.take next := by
        rw [← hfront, List.take_take, List.take_eq_take_iff]
        omega
      rw [Nat.sub_zero, ← htake, List.take_append_drop]
    have hfull : run .start [] [] 0 (front.drop 0) = .record fields next := by
      rw [List.drop_zero, hlonger]
      exact run_append _ _ hrun
    have := hloop hcheck [] fields next hfull
    rwa [List.length_nil, Nat.add_zero] at this
  · rw [hresult] at hloop
    obtain ⟨more, rfl, hmore⟩ := hloop
    refine ⟨more, ?_, rfl⟩
    have hrun := hmore []
    rw [List.drop_zero, List.nil_append] at hrun
    rw [Rfc.record, hsplit]
    exact run_append _ _ hrun

/-! ## The structural kernel -/

theorem lt_of_asciiBlock {block : Bytes} (hlen : block.length ≤ 32) (h : asciiBlock block = true) :
    ∀ byte ∈ block, byte < 128 := by
  intro byte hbyte
  obtain ⟨i, hi⟩ := List.mem_iff_getElem?.1 hbyte
  have hlt := (List.getElem?_eq_some_iff.1 hi).1
  have hbit := Bits.eq_zero_iff.1 (beq_iff_eq.1 h) i
  rw [Bits.getLsbD_ofMask, hi] at hbit
  have hin : i < 32 := by omega
  simpa [hin] using hbit

/-- The bytes of a record that ends in two blocks are those of the blocks. -/
theorem record_ascii {input : Bytes} {fields : List Bytes} {next : ℕ}
    (h : Rfc.record input = .record fields next) (hnext : next ≤ 64)
    (hfirst : asciiBlock (input.take 32) = true) (hsecond : asciiBlock (slice input 32 64) = true) :
    ∀ field ∈ fields, ∀ byte ∈ field, byte < 128 := by
  intro field hfield byte hbyte
  obtain ⟨-, -, hmem⟩ := run_within input h
  rcases hmem field hfield with hnil | hbytes
  · exact absurd hnil List.not_mem_nil
  rcases hbytes byte hbyte with hnil | hin
  · exact absurd hnil List.not_mem_nil
  have hblocks : input.take 64 = input.take 32 ++ slice input 32 64 := by
    conv_lhs => rw [← List.take_append_drop 32 (input.take 64), List.take_take]
    rfl
  have hin' : byte ∈ input.take 64 := by
    rw [Nat.sub_zero] at hin
    exact (List.take_subset_take_left input hnext) hin
  rw [hblocks] at hin'
  rcases List.mem_append.1 hin' with hlow | hhigh
  · exact lt_of_asciiBlock (List.length_take_le _ _) hfirst byte hlow
  · refine lt_of_asciiBlock ?_ hsecond byte hhigh
    rw [slice, List.length_drop, List.length_take]
    omega

/-- **The structural kernel computes the meaning of the bytes**: from any byte of a window, a record
    that it accepts is the record there, field for field, which is also what the scalar kernel makes
    of it; and it declines bytes that begin with a malformed one. -/
theorem structural_reads (avx2 checkFieldLimit preservePrefix certifyAscii : Bool) (window : Bytes)
    (start : ℕ) (output : Output) (maxFieldBytes : ℕ) :
    let input := window.drop start
    let result := tryParseDefaultQuotedRecordStructural avx2 checkFieldLimit preservePrefix
      certifyAscii input output maxFieldBytes
    (∀ next flag, result.1 = .ok (next, flag) → ∃ fields, Rfc.record input = .record fields next ∧
        (result.2.bytes, result.2.ends) = pushFields (output.bytes, output.ends) fields ∧
        (result.2.textValidity = output.textValidity ∨
          result.2.textValidity = .ascii ∧ ∀ field ∈ fields, ∀ byte ∈ field, byte < 128) ∧
        ∀ (checkFieldLimit' : Bool) (maxRecordBytes maxFieldBytes' maxFields : ℕ),
          match tryParseDefaultRecord checkFieldLimit' input output maxRecordBytes maxFieldBytes'
            maxFields with
          | some (next', output') => next' = next ∧
              (output'.bytes, output'.ends) = (result.2.bytes, result.2.ends)
          | none => checkFieldLimit' = false → next ≤ maxRecordBytes →
              maxFields < output.ends.length + fields.length) ∧
      (∀ reason, Rfc.record input = .malformed reason → result.1 = .error .declined) ∧
      result.1 ≠ .error .panicked ∧
      (result.1 = .error .declined → preservePrefix = true → result.2 = output) := by
  intro input result
  have hreads := tryParseDefaultQuotedRecordStructural_reads avx2 checkFieldLimit preservePrefix
    certifyAscii input output maxFieldBytes
  rcases hresult : tryParseDefaultQuotedRecordStructural avx2 checkFieldLimit preservePrefix
    certifyAscii input output maxFieldBytes with ⟨stop | ⟨next, flag⟩, output'⟩
  all_goals
    rw [hresult] at hreads
    rw [show result = _ from hresult]
  · obtain ⟨rfl, hleft⟩ := hreads
    refine ⟨fun _ _ h => (by cases h), fun _ _ => rfl, fun h => (by cases h), fun _ hpreserve => ?_⟩
    rcases hleft with heq | ⟨hclears, -⟩
    · exact heq
    · exact absurd (hpreserve.symm.trans hclears) Bool.true_eq_false.mp
  obtain ⟨fields, hrecord, hnext, hparts, hvalidity⟩ := hreads
  refine ⟨?_, ?_, fun h => (by cases h), fun h => (by cases h)⟩
  · rintro next' flag' heq
    obtain ⟨rfl, -⟩ : next = next' ∧ flag = flag' := by simpa using heq
    refine ⟨fields, hrecord, hparts, hvalidity.imp_right fun h =>
      ⟨h.1, record_ascii hrecord hnext h.2.1 h.2.2⟩, ?_⟩
    intro checkFieldLimit' maxRecordBytes maxFieldBytes' maxFields
    have hscalar := tryParseDefaultRecord_reads checkFieldLimit' input output maxRecordBytes
      maxFieldBytes' maxFields
    rcases hresult : tryParseDefaultRecord checkFieldLimit' input output maxRecordBytes maxFieldBytes'
      maxFields with _ | ⟨next', output''⟩
    · rw [hresult] at hscalar
      exact fun hcheck => hscalar hcheck fields next hrecord
    · rw [hresult] at hscalar
      obtain ⟨fields', hrecord', hparts'⟩ := hscalar
      obtain ⟨rfl, rfl⟩ : fields = fields' ∧ next = next' := by
        simpa using hrecord.symm.trans hrecord'
      exact ⟨rfl, hparts'.trans hparts.symm⟩
  · intro reason hmalformed
    cases hrecord.symm.trans hmalformed

/-- The record `"a""b",c`, with a carriage return, in front of zeros. -/
theorem structural_reads_doubled :
    let window : Bytes := [34, 97, 34, 34, 98, 34, 44, 99, 13, 10] ++ List.replicate 54 0
    ∃ fields, Rfc.record window = .record fields 10 := by
  intro window
  have haccepts : (tryParseDefaultQuotedRecordStructural true true false true (window.drop 0)
      ⟨[], [], .unknown⟩ 16).1 = .ok (10, true) := by decide +kernel
  obtain ⟨fields, hrecord, -⟩ :=
    (structural_reads true true false true window 0 ⟨[], [], .unknown⟩ 16).1 10 true haccepts
  exact ⟨fields, hrecord⟩

end Structural

end Coseva
