/-
  Coseva — in the default configuration the owned parse path reads the record of RFC 4180,
  whichever kernels its predictions send it to (`coseva/src/engine/owned_parser.rs`).

  * `DefaultCsv`: the configurations that have those kernels;
  * `ownedPlainLoop_heads`: the plain kernel, up to the next quoted field;
  * `resumeOwnedLoop_reads`: the alternation of the two kernels;
  * `parseOwnedInteriorPrefix_reads`: a record that is predicted to have quotes.
-/
import Coseva.OwnedHeads
import Coseva.OwnedParse

namespace Coseva

open Run Rfc Structural

/-! ## Bytes that end no field -/

namespace Rfc

/-- A record ends within the bytes. -/
theorem next_le_of_run (rest : Bytes) : ∀ {mode : Mode} {fields : List Bytes} {field : Bytes} {pos : ℕ}
    {fields' : List Bytes} {next : ℕ}, run mode fields field pos rest = .record fields' next →
      next ≤ pos + rest.length := by
  induction rest with
  | nil =>
    intro mode fields field pos fields' next h
    rw [run] at h
    split_ifs at h
  | cons byte rest ih =>
    intro mode fields field pos fields' next h
    rw [run] at h
    rw [List.length_cons]
    rcases hresult : step mode field byte with ⟨mode', field'⟩ | ⟨field'⟩ | ⟨field'⟩ | reason <;>
      rw [hresult] at h
    · have := ih h
      omega
    · have := ih h
      omega
    · obtain ⟨-, rfl⟩ : fields ++ [field'] = fields' ∧ pos + 1 = next := by
        simpa using h
      omega
    · cases h

/-- A record has a byte for each field at least. -/
theorem length_le_of_run (rest : Bytes) : ∀ {mode : Mode} {fields : List Bytes} {field : Bytes} {pos : ℕ}
    {fields' : List Bytes} {next : ℕ}, run mode fields field pos rest = .record fields' next →
      fields'.length ≤ fields.length + (next - pos) := by
  induction rest with
  | nil =>
    intro mode fields field pos fields' next h
    rw [run] at h
    split_ifs at h
  | cons byte rest ih =>
    intro mode fields field pos fields' next h
    rw [run] at h
    rcases hresult : step mode field byte with ⟨mode', field'⟩ | ⟨field'⟩ | ⟨field'⟩ | reason <;>
      rw [hresult] at h
    · have := ih h
      omega
    · have := ih h
      have := (run_within _ h).1
      rw [List.length_append, List.length_singleton] at *
      omega
    · obtain ⟨rfl, rfl⟩ : fields ++ [field'] = fields' ∧ pos + 1 = next := by
        simpa using h
      rw [List.length_append, List.length_singleton]
      omega
    · cases h

variable {input : Bytes} {pos next fieldStart : ℕ} {fields : List Bytes}

theorem Rest.le_length (h : Rest input pos fields next) : next ≤ input.length := by
  have hle := next_le_of_run _ h
  rw [List.length_drop] at hle
  rcases Nat.le_total pos input.length with hpos | hpos
  · omega
  · rw [Rest, List.drop_eq_nil_of_le hpos] at h
    cases h

/-- The fields between the commas of a run are empty. -/
theorem Rest.commas (count : ℕ) (h : Rest input pos fields next)
    (hcommas : ∀ i < count, input[pos + i]? = some 44) :
    ∃ rest, fields = List.replicate count [] ++ rest ∧ Rest input (pos + count) rest next := by
  induction count generalizing pos fields with
  | zero => exact ⟨fields, rfl, h⟩
  | succ count ih =>
    have hcomma : input[pos]? = some 44 := hcommas 0 (Nat.succ_pos _)
    obtain ⟨rest, rfl, hrest⟩ := h.field (pos + 1) [] fun front => by
      rw [drop_eq_cons hcomma, run_start (by decide), run_comma (Or.inl rfl)]
    obtain ⟨rest', rfl, hrest'⟩ := ih hrest fun i hi => by
      rw [show pos + 1 + i = pos + (i + 1) by omega]
      exact hcommas (i + 1) (by omega)
    refine ⟨rest', rfl, ?_⟩
    rw [show pos + (count + 1) = pos + 1 + count by omega]
    exact hrest'

/-- The plain kernel stands at `pos`, behind the first bytes of a field or in front of one in a run
    of commas. -/
structure Scanned (input : Bytes) (fieldStart pos : ℕ) : Prop where
  bare : ∀ i, fieldStart ≤ i → i < pos → ∃ byte, input[i]? = some byte ∧ Bare byte
  commas : ∀ i, pos ≤ i → i < fieldStart → input[i]? = some 44

namespace Scanned

theorem refl : Scanned input pos pos :=
  ⟨fun _ h h' => by omega, fun _ h h' => by omega⟩

/-- A field that does not begin with a quote, up to where it is read. -/
theorem leads {first : UInt8} (h : Scanned input fieldStart pos) (hle : fieldStart ≤ pos)
    (hin : pos ≤ input.length) (hfirst : input[fieldStart]? = some first) (hne : first ≠ 34) :
    Leads input .start [] fieldStart .unquoted (slice input fieldStart pos) pos := by
  refine (leads_start hfirst hne).trans (leads_bare hle hin fun i hi hi' byte hbyte => ?_)
  obtain ⟨byte', hbyte', hbare⟩ := h.bare i hi hi'
  obtain rfl := Option.some.inj (hbyte.symm.trans hbyte')
  exact hbare

/-- The same, of a field of which a byte is read. -/
theorem leads_of_lt (h : Scanned input fieldStart pos) (hlt : fieldStart < pos)
    (hin : pos ≤ input.length) :
    Leads input .start [] fieldStart .unquoted (slice input fieldStart pos) pos := by
  obtain ⟨first, hfirst, hbare⟩ := h.bare fieldStart le_rfl hlt
  exact h.leads hlt.le hin hfirst hbare.1

theorem le_length (h : Scanned input fieldStart pos) (hlt : fieldStart < pos) : pos ≤ input.length := by
  obtain ⟨byte, hbyte, -⟩ := h.bare (pos - 1) (by omega) (by omega)
  have := (List.getElem?_eq_some_iff.1 hbyte).1
  omega

/-- The record ends behind the bytes read. -/
theorem lt_next (h : Scanned input fieldStart pos) (hrest : Rest input fieldStart fields next) :
    pos < next := by
  rcases Nat.lt_or_ge fieldStart pos with hlt | hle
  · have hrun := (h.leads_of_lt hlt (h.le_length hlt) []).symm.trans hrest
    exact (run_within _ hrun).1
  · exact Nat.lt_of_le_of_lt hle hrest.lt

end Scanned

end Rfc

namespace OwnedOutput

/-- Fields behind those of a record. -/
def behind (o : OwnedOutput) (fields : List Bytes) : OwnedOutput :=
  { o with fields := o.fields ++ fields.map some }

@[simp] theorem behind_nil (o : OwnedOutput) : o.behind [] = o := by
  simp [behind]

@[simp] theorem behind_behind (o : OwnedOutput) (fields fields' : List Bytes) :
    (o.behind fields).behind fields' = o.behind (fields ++ fields') := by
  simp [behind]

@[simp] theorem len_behind (o : OwnedOutput) (fields : List Bytes) :
    (o.behind fields).len = o.len + fields.length := by
  simp [behind, len]

theorem appendEmptyFields_eq (o : OwnedOutput) (count : ℕ) :
    o.appendEmptyFields count = o.behind (List.replicate count []) := by
  simp [appendEmptyFields, behind]

theorem length_offsetsFrom (fields : Fields) : ∀ start : ℕ,
    (Fields.offsetsFrom start fields).length = fields.length := by
  induction fields with
  | nil =>
    intro start
    rfl
  | cons field fields ih =>
    intro start
    rw [Fields.offsetsFrom, List.length_cons, ih, List.length_cons]

/-- Fields behind those of a storage, as their bytes and their endpoints. -/
theorem pushFields_eq (heads : List Bytes) : ∀ (bytes : Bytes) (ends : List ℕ),
    pushFields (bytes, ends) heads =
      (bytes ++ heads.flatten, ends ++ Fields.offsetsFrom bytes.length (heads.map some)) := by
  induction heads with
  | nil =>
    intro bytes ends
    simp [pushFields, Fields.offsetsFrom]
  | cons field heads ih =>
    intro bytes ends
    have hpush : pushFields (bytes, ends) (field :: heads) =
        pushFields (bytes ++ field, ends ++ [(bytes ++ field).length]) heads := rfl
    rw [hpush, ih]
    simp [Fields.offsetsFrom, Fields.width]

/-- The pieces of a text are its fields. -/
theorem pieces_offsetsFrom (heads : List Bytes) : ∀ bytes : Bytes,
    pieces (bytes ++ heads.flatten) bytes.length (Fields.offsetsFrom bytes.length (heads.map some)) =
      heads := by
  induction heads with
  | nil =>
    intro bytes
    rfl
  | cons field heads ih =>
    intro bytes
    have hrest := ih (bytes ++ field)
    rw [List.length_append, List.append_assoc] at hrest
    rw [List.map_cons, Fields.offsetsFrom, pieces, List.flatten_cons]
    have hwidth : Fields.width (some field) = field.length := rfl
    rw [hwidth, hrest, slice, ← List.append_assoc, List.take_left' (by rw [List.length_append]),
      List.drop_left]

/-- The record of a storage behind which a kernel has read some fields. -/
theorem filled_parts {o : OwnedOutput} {s : Structural.Output} {heads : List Bytes}
    (hparts : (s.bytes, s.ends) = pushFields (o.storage.bytes, o.storage.ends) heads) :
    o.filled s = { o.behind heads with textValidity := s.textValidity } := by
  rw [pushFields_eq, Prod.mk.injEq] at hparts
  obtain ⟨hbytes, hends⟩ := hparts
  have hlen : o.storage.ends.length = o.len := length_offsetsFrom _ _
  have hkept : o.fields.take s.ends.length = o.fields := by
    refine List.take_of_length_le ?_
    rw [hends, List.length_append, hlen]
    exact Nat.le_add_right _ _
  have hnew : s.ends.drop o.len = Fields.offsetsFrom o.storage.bytes.length (heads.map some) := by
    rw [hends, List.drop_left' hlen]
  unfold filled behind
  rw [hkept, hnew, hbytes]
  exact congrArg (fun fields => { o with
    fields := o.fields ++ fields.map some
    textValidity := s.textValidity }) (pieces_offsetsFrom heads o.storage.bytes)

theorem filled_eq {o : OwnedOutput} {s : Structural.Output} {heads : List Bytes}
    (hparts : (s.bytes, s.ends) = pushFields (o.storage.bytes, o.storage.ends) heads)
    (hvalidity : s.textValidity = o.textValidity) : o.filled s = o.behind heads := by
  rw [filled_parts hparts, hvalidity]
  rfl

end OwnedOutput

namespace Engine

/-- The configurations of the default dialect that have kernels of their own. -/
structure DefaultCsv (cfg : ParserSettings) (F : CsvFormat) : Prop where
  limits : cfg.limits = .default
  fieldCount : cfg.fieldCount = .flexible
  dialect : cfg.dialect = .csv
  syntax' : cfg.syntax' = .strict
  nulls : cfg.nulls = .none
  skips : cfg.skipsRecords = false
  follows : cfg.Follows F

variable {cfg : ParserSettings} {F : CsvFormat} {input : Bytes}

section default

variable (hd : DefaultCsv cfg F)

/-! ## The plain kernel -/

/-- What a step of the owned path makes of the fields from `pos` on: the record is read, or its
    fields up to a quoted one. -/
def ReadsOn (input : Bytes) (pos : ℕ) (fields : List Bytes) (next : ℕ) (output : OwnedOutput)
    (e : Engine) (r : EStateM.Result Fault Engine (Bool × OwnedOutput)) : Prop :=
  ∃ parsed heads tail location, r = .ok (parsed, output.behind heads) { e with location } ∧
    fields = heads ++ tail ∧
    if parsed then tail = [] ∧ location = next
    else Rest input location tail next ∧ input[location]? = some 34 ∧ pos ≤ location

theorem ReadsOn.behind (heads : List Bytes) {pos stop next : ℕ} {rest : List Bytes} {output : OwnedOutput}
    {e : Engine} {r : EStateM.Result Fault Engine (Bool × OwnedOutput)}
    (h : ReadsOn input stop rest next (output.behind heads) e r) (hle : pos ≤ stop) :
    ReadsOn input pos (heads ++ rest) next output e r := by
  obtain ⟨parsed, heads', tail, location, rfl, rfl, hend⟩ := h
  refine ⟨parsed, heads ++ heads', tail, location, by rw [OwnedOutput.behind_behind],
    (List.append_assoc ..).symm, ?_⟩
  split_ifs at hend ⊢
  · exact hend
  · exact ⟨hend.1, hend.2.1, hle.trans hend.2.2⟩

include hd

theorem pushOwnedField_ok {output : OwnedOutput} {start stop byte : ℕ} (e : Engine)
    (hlen : output.len < Limits.default.maxFields) (hwidth : stop ≤ start + Limits.default.maxFieldBytes) :
    pushOwnedField cfg input output start stop byte e = .ok (output.behind [slice input start stop]) e := by
  unfold pushOwnedField
  rw [hd.limits, if_neg (by omega), if_neg (by omega)]
  rfl

theorem endOwnedPlain_ok {output : OwnedOutput} {recordStart fieldStart fieldEnd pos location : ℕ}
    (e : Engine) (hlen : output.len < Limits.default.maxFields)
    (hwidth : fieldEnd ≤ fieldStart + Limits.default.maxFieldBytes)
    (hrecord : location ≤ recordStart + Limits.default.maxRecordBytes) :
    endOwnedPlain cfg input recordStart fieldStart fieldEnd pos location output e =
      .ok (true, output.behind [slice input fieldStart fieldEnd]) { e with location } := by
  unfold endOwnedPlain
  rw [bind_ok (pushOwnedField_ok hd e hlen hwidth)]
  simp only [setLocation, modify_bind]
  rw [checkRecordLimitFor, hd.limits, if_neg (by omega)]
  rfl

omit hd in
theorem delimiterRun_get {delimiter : UInt8} {pos i : ℕ} (hi : i < delimiterRun input delimiter pos) :
    input[pos + i]? = some delimiter := by
  have hprefix := List.takeWhile_prefix (· == delimiter) (l := input.drop pos)
  have hget := (List.prefix_iff_getElem?.1 hprefix) i hi
  rw [List.getElem?_drop] at hget
  rw [hget]
  have hmem := List.mem_takeWhile_imp (List.getElem_mem hi)
  exact congrArg some (beq_iff_eq.1 hmem)

omit hd in
theorem delimiterRun_pos {delimiter : UInt8} {pos : ℕ} (h : input[pos]? = some delimiter) :
    0 < delimiterRun input delimiter pos := by
  rw [delimiterRun, drop_eq_cons h, List.takeWhile_cons, if_pos (by simp)]
  exact Nat.succ_pos _

omit hd in
/-- Behind a byte that ends nothing. -/
theorem scanned_bare {fieldStart pos : ℕ} {byte : UInt8} (h : Scanned input fieldStart pos)
    (hbyte : input[pos]? = some byte) (hbare : Bare byte) : Scanned input fieldStart (pos + 1) := by
  refine ⟨fun i hi hi' => ?_, fun i hi hi' => h.commas i (by omega) hi'⟩
  rcases Nat.lt_or_ge i pos with hlt | hge
  · exact h.bare i hi hlt
  · obtain rfl : i = pos := by omega
    exact ⟨byte, hbyte, hbare⟩

omit hd in
theorem structuralMatches_bare {byte : UInt8} (h : Bare byte) (pos : ℕ) (rest : Bytes) :
    structuralMatches .csv pos (byte :: rest) = structuralMatches .csv (pos + 1) rest := by
  rw [structuralMatches, if_neg]
  simpa [Dialect.csv, RecordEnding.byte, Bare, and_assoc, and_comm, and_left_comm] using h

omit hd in
theorem structuralMatches_of_not_bare {byte : UInt8} (h : ¬ Bare byte) (pos : ℕ) (rest : Bytes) :
    structuralMatches .csv pos (byte :: rest) = (pos, byte) :: structuralMatches .csv (pos + 1) rest := by
  rw [structuralMatches, if_pos]
  unfold Bare at h
  simp only [Dialect.csv, RecordEnding.byte, Bool.or_eq_true, beq_iff_eq]
  tauto

omit hd in
theorem stripCr_eq_lastEnd (fieldStart pos : ℕ) :
    stripCr input fieldStart pos = lastEnd input fieldStart pos := by
  unfold stripCr lastEnd
  simp only [Bool.and_eq_true, decide_eq_true_iff, beq_iff_eq, gt_iff_lt]

/-- **The loop of the plain kernel**: the fields up to the end of the record, or up to a quote. -/
theorem ownedPlainLoop_heads {recordStart scanEnd next : ℕ} (hscan : next ≤ scanEnd)
    (hin : scanEnd ≤ input.length) (hnear : next ≤ recordStart + Limits.default.maxFieldBytes)
    (e : Engine) (n : ℕ) : ∀ (pos fieldStart : ℕ) (fields : List Bytes) (output : OwnedOutput),
    scanEnd = pos + n → recordStart ≤ fieldStart → Rest input fieldStart fields next →
    Scanned input fieldStart pos → output.len + fields.length ≤ Limits.default.maxFields →
    ReadsOn input fieldStart fields next output e
      (ownedPlainLoop cfg F input recordStart scanEnd fieldStart output
        (structuralMatches .csv pos (slice input pos scanEnd)) e) := by
  induction n with
  | zero =>
    intro pos fieldStart fields output hn hstart h hscanned hfields
    have := hscanned.lt_next h
    omega
  | succ n ih =>
    intro pos fieldStart fields output hn hstart h hscanned hfields
    have hlt := hscanned.lt_next h
    obtain ⟨byte, hbyte⟩ : ∃ byte, input[pos]? = some byte :=
      ⟨_, List.getElem?_eq_getElem (by omega)⟩
    have hslice : slice input pos scanEnd = byte :: slice input (pos + 1) scanEnd := by
      rw [slice, drop_eq_cons (by rw [List.getElem?_take, if_pos (by omega), hbyte])]
      rfl
    have hcsv : (cfg.fmt F).dialect = .csv := hd.follows.dialect.trans hd.dialect
    have hfrom : byte ≠ 44 → fieldStart ≤ pos := by
      intro hne
      refine Nat.le_of_not_lt fun hbehind => hne ?_
      exact Option.some.inj (hbyte.symm.trans (hscanned.commas pos le_rfl hbehind))
    have hnonempty := List.length_pos_of_ne_nil h.ne_nil
    rw [hslice]
    by_cases hbare : Bare byte
    · -- a byte of a field
      rw [structuralMatches_bare hbare]
      exact ih (pos + 1) fieldStart fields output (by omega) hstart h
        (scanned_bare hscanned hbyte hbare) hfields
    rw [structuralMatches_of_not_bare hbare, ownedPlainLoop]
    simp only [hcsv]
    obtain rfl | rfl | rfl : byte = 44 ∨ byte = 34 ∨ byte = 10 := by
      unfold Bare at hbare
      tauto
    · -- a comma
      rw [if_pos (show (44 : UInt8) = Dialect.csv.delimiter from rfl)]
      by_cases hhere : pos = fieldStart
      · subst hhere
        rw [if_pos rfl]
        set count := delimiterRun input Dialect.csv.delimiter pos with hcount
        have hpos : 0 < count := delimiterRun_pos hbyte
        obtain ⟨rest, rfl, hrest⟩ := h.commas count fun i hi => delimiterRun_get hi
        rw [List.length_append, List.length_replicate] at hfields
        rw [hd.limits, if_neg (by omega), OwnedOutput.appendEmptyFields_eq]
        refine ReadsOn.behind _ (ih (pos + 1) (pos + count) rest _ (by omega) (by omega) hrest
          ⟨fun i hi hi' => by omega, fun i hi hi' => ?_⟩ ?_) (Nat.le_add_right _ _)
        · rw [show i = pos + (i - pos) by omega]
          have hi'' : i - pos < delimiterRun input Dialect.csv.delimiter pos := by omega
          exact delimiterRun_get hi''
        · rw [OwnedOutput.len_behind, List.length_replicate]
          omega
      rw [if_neg hhere]
      by_cases hbehind : pos < fieldStart
      · rw [if_pos hbehind]
        exact ih (pos + 1) fieldStart fields output (by omega) hstart h
          ⟨fun i hi hi' => by omega, fun i hi hi' => hscanned.commas i (by omega) hi'⟩ hfields
      · rw [if_neg hbehind]
        obtain ⟨rest, rfl, hrest⟩ := h.field (pos + 1) (slice input fieldStart pos)
            fun front => by
          rw [hscanned.leads_of_lt (by omega) (by omega) front, drop_eq_cons hbyte,
            run_comma (Or.inl rfl)]
        rw [List.length_cons] at hfields
        rw [bind_ok (pushOwnedField_ok hd e (by omega) (by omega))]
        refine ReadsOn.behind [slice input fieldStart pos] (ih (pos + 1) (pos + 1) rest _
          (by omega) (by omega) hrest .refl ?_) (by omega)
        rw [OwnedOutput.len_behind, List.length_singleton]
        omega
    · -- a quote: it opens a field, or there is no record
      obtain rfl : pos = fieldStart := by
        refine Nat.le_antisymm (Nat.le_of_not_lt fun hbehind => ?_) ?_
        · have hrun := (hscanned.leads_of_lt hbehind (by omega) []).symm.trans h
          rw [drop_eq_cons hbyte] at hrun
          cases hrun
        · exact Nat.le_of_not_lt fun hbehind => by
            have := hscanned.commas pos le_rfl hbehind
            rw [hbyte] at this
            cases this
      have hquoting : (cfg.fmt F).syntax'.quotingEnabled = true := by
        rw [hd.follows.syntax', hd.syntax', Syntax.quotingEnabled]
      rw [if_neg (show ¬ (34 : UInt8) = Dialect.csv.delimiter by decide),
        if_pos ⟨rfl, hquoting, Or.inl rfl⟩, if_neg (not_not.2 rfl)]
      exact ⟨false, [], fields, pos, by rw [OwnedOutput.behind_nil]; rfl, rfl, h, hbyte, le_rfl⟩
    · -- the end of the record
      have hle := hfrom (by decide)
      have hend : fieldStart ≤ lastEnd input fieldStart pos ∧ lastEnd input fieldStart pos ≤ pos := by
        unfold lastEnd
        split_ifs
        · omega
        · omega
      obtain ⟨first, hfirst, hne⟩ : ∃ first, input[fieldStart]? = some first ∧ first ≠ 34 := by
        rcases Nat.lt_or_eq_of_le hle with hlt | rfl
        · obtain ⟨first, hfirst, hbare⟩ := hscanned.bare fieldStart le_rfl hlt
          exact ⟨first, hfirst, hbare.1⟩
        · exact ⟨10, hbyte, by decide⟩
      have hfront : Scanned input fieldStart (lastEnd input fieldStart pos) :=
        ⟨fun i hi hi' => hscanned.bare i hi (by omega), fun i hi hi' => by omega⟩
      obtain ⟨rfl, rfl⟩ := h.last _ _ (run_last hbyte
        (Or.inl ⟨rfl, hfront.leads hend.1 (by omega) hfirst hne⟩))
      rw [if_neg (show ¬ (10 : UInt8) = Dialect.csv.delimiter by decide),
        if_neg fun hquote => absurd hquote.1 (by decide),
        if_pos (show (10 : UInt8) = cfg.dialect.recordEnding.byte by rw [hd.dialect]; rfl)]
      rw [if_pos (show Dialect.csv.recordEnding = .newline from rfl), stripCr_eq_lastEnd]
      rw [List.length_singleton] at hfields
      have hlimits : Limits.default.maxFieldBytes ≤ Limits.default.maxRecordBytes := by decide
      rw [endOwnedPlain_ok hd e (by omega) (by omega) (by omega)]
      exact ⟨true, _, [], pos + 1, rfl, (List.append_nil _).symm, rfl, rfl⟩

/-- **The plain kernel**, from a field on. -/
theorem ownedPlainFrom_heads {recordStart resume next : ℕ} {fields : List Bytes} {output : OwnedOutput}
    (h : Rest input resume fields next) (hstart : recordStart ≤ resume)
    (hnear : next ≤ recordStart + Limits.default.maxFieldBytes)
    (hfields : output.len + fields.length ≤ Limits.default.maxFields) (e : Engine) :
    ReadsOn input resume fields next output e (ownedPlainFrom cfg F input recordStart resume output e) := by
  have hcsv : (cfg.fmt F).dialect = .csv := hd.follows.dialect.trans hd.dialect
  have hlimits : Limits.default.maxFieldBytes ≤ Limits.default.maxRecordBytes := by decide
  have hin := h.le_length
  have hlt := h.lt
  unfold ownedPlainFrom
  simp only [hcsv, hd.limits]
  exact ownedPlainLoop_heads hd (by omega) (Nat.min_le_left _ _) hnear e _ resume resume fields output
    (Nat.add_sub_cancel' (by omega)).symm hstart h .refl hfields

/-! ## The two kernels in turn -/

omit hd in
theorem storage_len (output : OwnedOutput) : output.storage.ends.length = output.len :=
  OwnedOutput.length_offsetsFrom _ _

/-- **A record is read** by the kernel for quoted fields and the plain one in turn. -/
theorem resumeOwnedLoop_reads {recordStart next : ℕ} (parse : PrefixParser)
    (hnear : next ≤ recordStart + Limits.default.maxFieldBytes) (fuel : ℕ) :
    ∀ (output : OwnedOutput) (e : Engine) (fields : List Bytes), input.length < e.location + fuel →
      recordStart ≤ e.location → Rest input e.location fields next → input[e.location]? = some 34 →
      output.len + fields.length ≤ Limits.default.maxFields →
      resumeOwnedLoop cfg F input parse recordStart fuel output e =
        .ok (true, output.behind fields) { e with location := next } := by
  induction fuel with
  | zero =>
    intro output e fields hfuel hstart h hquote hfields
    have := h.lt
    have := h.le_length
    omega
  | succ fuel ih =>
    intro output e fields hfuel hstart h hquote hfields
    have hlimits : Limits.default.maxFieldBytes ≤ Limits.default.maxRecordBytes := by decide
    have hin := h.le_length
    have hlt := h.lt
    rw [resumeOwnedLoop, get_bind]
    have hwindow : ownedResumeWindow cfg input recordStart e.location =
        some (slice input e.location (min input.length (recordStart + cfg.limits.maxRecordBytes))) := by
      unfold ownedResumeWindow
      rw [if_pos (by rw [hd.limits]; omega)]
    rw [hwindow, hd.limits]
    simp only
    set windowEnd := min input.length (recordStart + Limits.default.maxRecordBytes) with hend
    have hto : ∀ {pos : ℕ} {tail : List Bytes},
        Rest (slice input e.location windowEnd) pos tail (next - e.location) ↔
          Rest input (e.location + pos) tail next := by
      intro pos tail
      rw [slice, Rest.drop_iff, Nat.add_sub_cancel' hlt.le, Rest.take_iff (by omega)]
    have hroom : output.storage.ends.length + fields.length ≤ Limits.default.maxFields := by
      rw [storage_len]
      exact hfields
    obtain ⟨location, finished, storage, hrun, hvalidity, heads, tail, rfl, hparts, -, hprogress, hrest⟩ :=
      PrefixParser.run_heads (hto.2 h) (by omega) hroom cfg.host parse
    rw [hrun]
    have hfilled := OwnedOutput.filled_eq hparts hvalidity
    cases finished with
    | true =>
      obtain ⟨rfl, rfl⟩ := hrest
      simp only [setLocation, modify_bind]
      rw [hfilled, List.append_nil, Nat.add_sub_cancel' hlt.le]
      rfl
    | false =>
      have hquote' : (slice input e.location windowEnd)[0]? = some 34 := by
        rw [slice, List.getElem?_drop, List.getElem?_take, if_pos (by omega), Nat.add_zero, hquote]
      have hpos := hprogress hquote'
      rw [List.length_append] at hfields
      simp only [setLocation, modify_bind]
      have hroom' : (output.filled storage).len + tail.length ≤ Limits.default.maxFields := by
        rw [hfilled, OwnedOutput.len_behind]
        omega
      obtain ⟨parsed, heads', tail', location', hplain, rfl, hthen⟩ := ownedPlainFrom_heads hd
        (hto.1 hrest) (by omega) hnear hroom' { e with location := e.location + location }
      rw [bind_ok hplain, hfilled, OwnedOutput.behind_behind]
      cases parsed with
      | true =>
        obtain ⟨rfl, rfl⟩ := hthen
        rw [List.append_nil]
        rfl
      | false =>
        obtain ⟨hrest', hquote'', hle⟩ := hthen
        simp only [Bool.false_eq_true, if_false]
        rw [ih (output.behind (heads ++ heads')) { e with location := location' } tail' (by
          show input.length < location' + fuel
          omega) (by
          show recordStart ≤ location'
          omega) hrest' hquote'' (by
          rw [OwnedOutput.len_behind, List.length_append]
          rw [List.length_append] at hfields
          omega), OwnedOutput.behind_behind, List.append_assoc]

theorem resumeOwnedAfterInteriorQuote_reads {recordStart next : ℕ} {output : OwnedOutput} {e : Engine}
    {fields : List Bytes} (hnear : next ≤ recordStart + Limits.default.maxFieldBytes)
    (hstart : recordStart ≤ e.location) (h : Rest input e.location fields next)
    (hquote : input[e.location]? = some 34)
    (hfields : output.len + fields.length ≤ Limits.default.maxFields)
    (hquoted : e.quotedPrefixParser.isSome) :
    resumeOwnedAfterInteriorQuote cfg F input recordStart output e =
      .ok (true, output.behind fields) { e with location := next } := by
  obtain ⟨parse, hparse⟩ := Option.isSome_iff_exists.1 hquoted
  unfold resumeOwnedAfterInteriorQuote
  rw [get_bind]
  conv_lhs => rw [hparse]
  exact resumeOwnedLoop_reads hd parse hnear _ output e fields (Nat.lt_add_left _ (Nat.lt_succ_self _))
    hstart h hquote hfields

/-! ## A record that is predicted to have quotes -/

theorem markOwnedNulls_eq (header : Bool) (output : OwnedOutput) :
    markOwnedNulls cfg F header output = output := by
  unfold markOwnedNulls
  rw [hd.follows.nulls, hd.nulls]

theorem finishOwnedRecord_ok (header : Bool) (output : OwnedOutput) (e : Engine) :
    finishOwnedRecord cfg F input header output e = .ok (true, output) e := by
  unfold finishOwnedRecord
  rw [markOwnedNulls_eq hd, bind_ok (validateFieldCount_flexible hd.fieldCount _)]
  rfl

omit hd in
/-- The engine without what it has learned of the records read. -/
def unpredicted (e : Engine) : Engine :=
  { e with
    interiorQuotes := 0
    interiorPrefixParser := none
    asciiStructuralBackoff := 0
    asciiStructuralSucceeded := false }

/-- **A record that is predicted to have quotes** is read whole, whichever kernels are predicted. -/
theorem parseOwnedInteriorPrefix_reads {next : ℕ} {fields : List Bytes} {output : OwnedOutput} {e : Engine}
    (h : Rest input e.location fields next) (hnear : next ≤ e.location + Limits.default.maxFieldBytes)
    (hfields : output.len + fields.length ≤ Limits.default.maxFields)
    (hinterior : e.interiorPrefixParser.isSome) (hquoted : e.quotedPrefixParser.isSome) (header : Bool) :
    ∃ e', parseOwnedInteriorPrefix cfg F input e.location header output e =
        .ok (true, output.behind fields) e' ∧
      e'.unpredicted = { e with location := next }.unpredicted := by
  obtain ⟨parse, hparse⟩ := Option.isSome_iff_exists.1 hinterior
  have hlt := h.lt
  have hto : ∀ {pos : ℕ} {tail : List Bytes},
      Rest (input.drop e.location) pos tail (next - e.location) ↔ Rest input (e.location + pos) tail next := by
    intro pos tail
    rw [Rest.drop_iff, Nat.add_sub_cancel' hlt.le]
  have hroom : output.storage.ends.length + fields.length ≤ Limits.default.maxFields := by
    rw [storage_len]
    exact hfields
  obtain ⟨location, finished, storage, hrun, hvalidity, heads, tail, rfl, hparts, -, -, hrest⟩ :=
    PrefixParser.run_heads (hto.2 h) (by omega) hroom cfg.host parse
  have hfilled := OwnedOutput.filled_eq hparts hvalidity
  generalize hread : ({ e with location := next } : Engine) = read
  unfold parseOwnedInteriorPrefix
  rw [get_bind, hparse]
  simp only [hrun]
  cases finished with
  | true =>
    obtain ⟨rfl, rfl⟩ := hrest
    simp only [setLocation, modify_bind]
    rw [hfilled, List.append_nil, Nat.add_sub_cancel' hlt.le]
    exact ⟨_, rfl, by rw [← hread]⟩
  | false =>
    rw [List.length_append] at hfields
    simp only [setLocation, modify_bind]
    have hroom' : (output.filled storage).len + tail.length ≤ Limits.default.maxFields := by
      rw [hfilled, OwnedOutput.len_behind]
      omega
    obtain ⟨parsed, heads', tail', location', hplain, rfl, hthen⟩ := ownedPlainFrom_heads hd
      (hto.1 hrest) (by omega) hnear hroom' { e with location := e.location + location }
    rw [bind_ok hplain, hfilled, OwnedOutput.behind_behind]
    cases parsed with
    | true =>
      obtain ⟨rfl, rfl⟩ := hthen
      rw [List.append_nil]
      simp only [if_true]
      rw [finishOwnedRecord_ok hd]
      exact ⟨_, rfl, by rw [← hread]⟩
    | false =>
      obtain ⟨hrest', hquote, hle⟩ := hthen
      rw [List.length_append] at hfields
      simp only [Bool.false_eq_true, if_false, predictQuotes, modify_bind]
      have hroom'' : (output.behind (heads ++ heads')).len + tail'.length ≤ Limits.default.maxFields := by
        rw [OwnedOutput.len_behind, List.length_append]
        omega
      have hresumed := resumeOwnedAfterInteriorQuote_reads hd
        (e := { e with
          location := location'
          interiorQuotes := interiorQuoteRun
          interiorPrefixParser := e.multiQuoteParser })
        hnear (show e.location ≤ location' by omega) hrest' hquote hroom'' hquoted
      rw [bind_ok hresumed, OwnedOutput.behind_behind, List.append_assoc]
      simp only [if_true]
      rw [finishOwnedRecord_ok hd]
      exact ⟨_, rfl, by rw [← hread]; rfl⟩

end default

end Engine

end Coseva
