/-
  Coseva — generated documents (`encode_to_vec` and `encode_to_segments` of
  `coseva/src/generate.rs`): one buffer, or a sequence of files of a bounded size.

  * `encodeToVec`: one emitter writes the header and the records;
  * `encodeToSegments`: a preamble that each part repeats, and one emitter whose
    buffer is drained at a threshold and moved to a new part when a record would
    push the current part past the bound;
  * `rows`: the texts of the records that are accepted, the meaning of both;
  * `segments_partition`: the parts hold the records of the one document, packed in
    their order.
-/
import Coseva.EmitAgree
import Coseva.Lib.Pack

namespace Coseva

/-! ## Options -/

/-- `EmitOptions`. -/
structure EmitOptions where
  fieldCount : FieldCount := .flexible
  hasHeaders : Bool := true
  bufferCapacity : ℕ := 8 * 1024
  deriving DecidableEq, Repr

/-- The errors of a generated document. -/
inductive GenerateError
  /-- `ErrorKind::Configuration` with its text -/
  | configuration (detail : String)
  | emit (error : EmitError)
  deriving DecidableEq, Repr

/-- The largest `u64`. -/
def u64Max : ℕ := 2 ^ 64 - 1

/-- `u64::saturating_add`. -/
def saturatingAdd (a b : ℕ) : ℕ := min (a + b) u64Max

/-- `FormatOptions::validate`. -/
def FormatSettings.validate (o : FormatSettings) : Except GenerateError Unit :=
  match o.invalidity with
  | some reason => .error (.configuration reason)
  | none => .ok ()

/-- `validate_buffer_capacity`. -/
def validateBufferCapacity (capacity : ℕ) : Except GenerateError Unit :=
  if capacity = 0 then .error (.configuration "buffer capacity must be greater than zero")
  else if isizeMax < capacity then
    .error (.configuration "buffer capacity exceeds the platform allocation limit")
  else .ok ()

/-- `EmitOptions::validate_buffered`. -/
def EmitOptions.validateBuffered (options : EmitOptions) (o : FormatSettings) :
    Except GenerateError Unit := do
  o.validate
  validateBufferCapacity options.bufferCapacity

namespace PushEmitter

/-- `PushEmitter::with_options`. -/
def withOptions (o : FormatSettings) (options : EmitOptions) : Except GenerateError PushEmitter :=
  match h : o.invalidity with
  | some reason => .error (.configuration reason)
  | none => .ok (.new o h options.fieldCount options.hasHeaders)

/-- An operation with `?`. -/
def orFail : Except EmitError Unit × PushEmitter → Except GenerateError PushEmitter
  | (.ok (), s) => .ok s
  | (.error e, _) => .error (.emit e)

/-- `encode_header`, of a type with those field names. -/
def encodeHeader (s : PushEmitter) (fieldNames : List Bytes) : Except GenerateError PushEmitter :=
  orFail (s.emitRecord none fieldNames)

/-- `encode_all`. -/
def encodeAll (s : PushEmitter) : List Encoding → Except GenerateError PushEmitter
  | [] => .ok s
  | value :: values => do
    let s ← orFail (s.encode none value)
    s.encodeAll values

end PushEmitter

section generate

variable (o : FormatSettings) (options : EmitOptions) (fieldNames : List Bytes)

/-! ## One document -/

/-- `encode_to_vec`, of a type with those field names. -/
def encodeToVec (values : List Encoding) : Except GenerateError Bytes := do
  let emitter ← PushEmitter.withOptions o options
  let emitter ← if options.hasHeaders then emitter.encodeHeader fieldNames else pure emitter
  let emitter ← emitter.encodeAll values
  pure emitter.buffer

/-! ## Parts -/

/-- `segment_preamble`. -/
def segmentPreamble : Except GenerateError Bytes := do
  let mark := if o.writeBom = .emit then bom else []
  if options.hasHeaders then do
    let header ← PushEmitter.withOptions { o with writeBom := .omit } options
    let header ← header.encodeHeader fieldNames
    pure (mark ++ header.buffer)
  else pure mark

/-- `SegmentProgress`. -/
structure SegmentProgress where
  written : ℕ
  hasRecords : Bool
  deriving DecidableEq, Repr

/-- `SegmentProgress::from_preamble`. -/
def SegmentProgress.fromPreamble (preamble : Bytes) : SegmentProgress := ⟨preamble.length, false⟩

/-- `segment_would_overflow`. -/
def segmentWouldOverflow (progress : SegmentProgress) (buffered maxBytes : ℕ) : Bool :=
  progress.hasRecords && decide (maxBytes < saturatingAdd progress.written buffered)

/-- `buffer_ready`. -/
def bufferReady (buffered threshold : ℕ) : Bool := decide (threshold ≤ buffered)

/-- The state of the loop of `encode_to_segments`: the emitter, the paths created so far,
    what is in the files that are closed and in the current one, and its progress. -/
structure Segmenter (P : Type) where
  core : PushEmitter
  parts : List P
  files : List Bytes
  part : Bytes
  progress : SegmentProgress

namespace Segmenter

variable {P : Type} (preamble : Bytes) (maxBytes threshold : ℕ) (namer : ℕ → P)

/-- `write_segment`. -/
def writeSegment (s : Segmenter P) (bytes : Bytes) : Segmenter P :=
  { s with part := s.part ++ bytes }

/-- `create_segment`, when a part is open. -/
def createSegment (s : Segmenter P) : Segmenter P :=
  { s with
    parts := s.parts ++ [namer s.parts.length]
    files := s.files ++ [s.part]
    part := preamble }

/-- The end of one round: the bytes that are left of the record's part, drained when they
    reach the threshold. -/
def settle (s : Segmenter P) : Segmenter P :=
  let s := { s with progress := { s.progress with hasRecords := true } }
  let buffered := s.core.buffer.length
  if bufferReady buffered threshold then
    let s := { s with progress :=
      { s.progress with written := saturatingAdd s.progress.written buffered } }
    let s := s.writeSegment s.core.buffer
    { s with core := { s.core with buffer := [] } }
  else s

/-- One round of the loop, of the value whose record has been encoded behind `start`. -/
def place (start : ℕ) (s : Segmenter P) : Segmenter P :=
  if segmentWouldOverflow s.progress s.core.buffer.length maxBytes then
    let s := s.writeSegment (s.core.buffer.take start)
    let s := s.createSegment preamble namer
    let s := { s with progress := .fromPreamble preamble }
    settle threshold { s with core := { s.core with buffer := s.core.buffer.drop start } }
  else settle threshold s

/-- The loop. -/
def run (s : Segmenter P) : List Encoding → Except GenerateError (Segmenter P)
  | [] => .ok s
  | value :: values => do
    let start := s.core.buffer.length
    let core ← PushEmitter.orFail (s.core.encode none value)
    run (place preamble maxBytes threshold namer start { s with core }) values

end Segmenter

/-- `encode_to_segments`: the paths, and what their files hold. -/
def encodeToSegments {P : Type} (values : List Encoding) (maxBytes : ℕ) (namer : ℕ → P) :
    Except GenerateError (List P × List Bytes) := do
  options.validateBuffered o
  -- `SegmentLimit::new`
  if maxBytes = 0 then .error (.configuration "segment size must be greater than zero")
  else
    let preamble ← segmentPreamble o options fieldNames
    let core ← PushEmitter.withOptions { o with writeBom := .omit } options
    let s : Segmenter P := ⟨core, [namer 0], [], preamble, .fromPreamble preamble⟩
    let s ← s.run preamble maxBytes options.bufferCapacity namer values
    let s := s.writeSegment s.core.buffer
    pure (s.parts, s.files ++ [s.part])

/-! ## Rows -/

/-- The record of a value, on an empty output. -/
def encoded (value : Encoding) : Except EmitError (ℕ × Bytes) :=
  PushEmitter.drafted (PushEmitter.visited none
    (.fromConfig [] o.dialect o.quoting o.writeBom o.nulls .flexible false) value [])

/-- The texts of the records of the values, when `expected` fields are latched. -/
def rows : Option ℕ → List Encoding → Except EmitError (List Bytes)
  | _, [] => .ok []
  | expected, value :: values => do
    let (count, text) ← encoded o value
    match validateFieldCount options.fieldCount expected count with
    | (.error e, _) => .error e
    | (.ok (), expected) => (text :: ·) <$> rows expected values

end generate

/-! ## One emitter -/

namespace PushEmitter

/-- The emitter writes records of the format, under the count policy of the options, with
    `expected` fields latched. -/
structure Writes (o : FormatSettings) (options : EmitOptions) (expected : Option ℕ)
    (s : PushEmitter) : Prop where
  dialect : s.dialect = o.dialect
  quoting : s.quoting = o.quoting
  nulls : s.nulls = o.nulls
  fieldCount : s.fieldCount = options.fieldCount
  expectedFields : s.expectedFields = expected

variable {o : FormatSettings} {options : EmitOptions} {expected : Option ℕ} {s : PushEmitter}

/-- The encoding of a value settles its record. -/
theorem Writes.encode (h : s.Writes o options expected) (value : Encoding) :
    s.encode none value = s.settleRecord (encoded o value) := by
  rw [encode_eq, encoded, visited, visited, h.dialect, h.quoting, h.nulls]
  rfl

theorem Writes.refuse (h : s.Writes o options expected) {count : ℕ} {text : Bytes} {e : EmitError}
    {latched : Option ℕ}
    (hv : validateFieldCount options.fieldCount expected count = (.error e, latched)) :
    s.settleRecord (.ok (count, text)) = (.error e, s) := by
  rw [settleRecord, h.fieldCount, h.expectedFields, hv]

/-- A record that is accepted is behind the buffer, and behind the mark that opens the
    document. -/
theorem Writes.accept (h : s.Writes o options expected) {count : ℕ} {latched : Option ℕ}
    (hv : validateFieldCount options.fieldCount expected count = (.ok (), latched))
    (text : Bytes) :
    ∃ s', s.settleRecord (.ok (count, text)) = (.ok (), s') ∧ s'.Writes o options latched ∧
      s'.bom = s.bom ∧
      (s.bom = .omit → s'.buffer = s.buffer ++ text) ∧
      ∀ texts, s.Opened texts → s'.Opened (texts ++ [text]) := by
  refine ⟨_, by rw [settleRecord, h.fieldCount, h.expectedFields, hv], ?_⟩
  unfold commit
  cases hstarted : s.started with
  | true =>
    rw [if_pos rfl]
    refine ⟨⟨h.dialect, h.quoting, h.nulls, rfl, rfl⟩, rfl, fun _ => rfl, ?_⟩
    rintro texts ⟨hst, hbuf⟩
    have hne : texts ≠ [] := by
      rintro rfl
      rw [hstarted] at hst
      exact Bool.noConfusion hst
    have hne' : texts ++ [text] ≠ [] := List.append_ne_nil_of_right_ne_nil _ (List.cons_ne_nil _ _)
    refine ⟨by simp, ?_⟩
    show s.buffer ++ text = output s.bom (texts ++ [text])
    rw [hbuf, output, output, if_neg hne, if_neg hne', List.flatten_append, List.append_assoc,
      List.flatten_singleton]
  | false =>
    rw [if_neg Bool.false_ne_true]
    refine ⟨⟨h.dialect, h.quoting, h.nulls, rfl, rfl⟩, rfl, fun homit => ?_, ?_⟩
    · show (if s.bom = .emit then Coseva.bom ++ (s.buffer ++ text) else s.buffer ++ text) = _
      rw [homit]
      rfl
    · rintro texts ⟨hst, hbuf⟩
      obtain rfl : texts = [] := by
        cases texts with
        | nil => rfl
        | cons t texts => rw [hstarted] at hst; exact Bool.noConfusion hst
      have hnil : s.buffer = [] := hbuf
      refine ⟨rfl, ?_⟩
      show (if s.bom = .emit then Coseva.bom ++ (s.buffer ++ text) else s.buffer ++ text) =
        output s.bom [text]
      rw [hnil, output, if_neg (List.cons_ne_nil _ _)]
      split_ifs <;> simp

/-- **A run of values** adds their rows, or fails as the rows do. -/
theorem Writes.encodeAll (h : s.Writes o options expected) (values : List Encoding)
    {texts : List Bytes} (hopen : s.Opened texts) :
    match rows o options expected values with
    | .error e => s.encodeAll values = .error (.emit e)
    | .ok records =>
      ∃ s', s.encodeAll values = .ok s' ∧ s'.buffer = output s.bom (texts ++ records) := by
  induction values generalizing s expected texts with
  | nil =>
    refine ⟨s, rfl, ?_⟩
    rw [hopen.2, List.append_nil]
  | cons value values ih =>
    rw [rows, PushEmitter.encodeAll, h.encode]
    rcases hrecord : encoded o value with e | ⟨count, text⟩
    · rfl
    rcases hv : validateFieldCount options.fieldCount expected count with ⟨e | _, latched⟩
    · rw [h.refuse hv]
      simp only [bind, Except.bind, hv]
      rfl
    obtain ⟨s', hsettle, hwrites, hbom, -, hopened⟩ := h.accept hv text
    have hrest := ih hwrites (hopened texts hopen)
    rw [hsettle]
    simp only [bind, Except.bind, hv, orFail]
    rcases hrows : rows o options latched values with e | records
    · rw [hrows] at hrest
      exact hrest
    · rw [hrows] at hrest
      obtain ⟨last, hrun, hbuf⟩ := hrest
      refine ⟨last, hrun, ?_⟩
      rw [hbuf, hbom, List.append_assoc, List.singleton_append]

end PushEmitter

/-! ## The loop packs the rows -/

/-- A part with these records is past the bound, in sizes that saturate. -/
def partFull (preamble : Bytes) (maxBytes : ℕ) (group : List Bytes) : Bool :=
  decide (maxBytes < min (preamble.length + group.flatten.length) u64Max)

namespace Segmenter

variable {P : Type} {preamble : Bytes} {maxBytes threshold : ℕ} {namer : ℕ → P}
  {s : Segmenter P} {group : List Bytes} {o : FormatSettings} {options : EmitOptions}
  {expected : Option ℕ}

/-- The current part, with what is still in the buffer, is the preamble and the records of
    `group`. -/
structure Holds (preamble : Bytes) (namer : ℕ → P) (group : List Bytes) (s : Segmenter P) :
    Prop where
  part : s.part ++ s.core.buffer = preamble ++ group.flatten
  written : min s.progress.written u64Max = min s.part.length u64Max
  hasRecords : s.progress.hasRecords = !group.isEmpty
  parts : s.parts = (List.range (s.files.length + 1)).map namer

variable (maxBytes) in
/-- A further record pushes the part past the bound, as the code computes it. -/
theorem Holds.overflow (h : s.Holds preamble namer group) (text : Bytes) :
    segmentWouldOverflow s.progress (s.core.buffer ++ text).length maxBytes =
      (!group.isEmpty && partFull preamble maxBytes (group ++ [text])) := by
  have hlen := congrArg List.length h.part
  have hwritten := h.written
  rw [segmentWouldOverflow, partFull, h.hasRecords]
  congr 2
  simp only [saturatingAdd, List.length_append, List.flatten_append, List.flatten_singleton] at *
  rw [eq_iff_iff]
  omega

variable (s preamble threshold namer group) in
/-- The end of a round, when the part has records. -/
theorem settle_holds (hgroup : group ≠ [])
    (part : s.part ++ s.core.buffer = preamble ++ group.flatten)
    (written : min s.progress.written u64Max = min s.part.length u64Max)
    (parts : s.parts = (List.range (s.files.length + 1)).map namer) :
    (settle threshold s).Holds preamble namer group ∧ (settle threshold s).files = s.files ∧
      ∃ buffer, (settle threshold s).core = { s.core with buffer } := by
  have hnonempty : (!group.isEmpty) = true := by
    cases group with
    | nil => exact absurd rfl hgroup
    | cons => rfl
  unfold settle
  simp only
  by_cases hready : bufferReady s.core.buffer.length threshold = true
  · rw [if_pos hready]
    refine ⟨⟨?_, ?_, hnonempty.symm, parts⟩, rfl, [], rfl⟩
    · simpa only [writeSegment, List.append_nil] using part
    · show min (saturatingAdd s.progress.written s.core.buffer.length) u64Max =
        min (s.part ++ s.core.buffer).length u64Max
      rw [saturatingAdd, List.length_append]
      omega
  · rw [if_neg hready]
    exact ⟨⟨part, written, hnonempty.symm, parts⟩, rfl, s.core.buffer, rfl⟩

variable (maxBytes threshold) in
/-- **One round**: the record opens a new part when the current one has records and would be
    past the bound with it, and else joins the current one. -/
theorem Holds.place (h : s.Holds preamble namer group) {core : PushEmitter} {text : Bytes}
    (hcore : core.buffer = s.core.buffer ++ text) :
    let next := Segmenter.place preamble maxBytes threshold namer s.core.buffer.length
      { s with core }
    (∃ buffer, next.core = { core with buffer }) ∧
      if !group.isEmpty && partFull preamble maxBytes (group ++ [text]) then
        next.Holds preamble namer [text] ∧ next.files = s.files ++ [preamble ++ group.flatten]
      else next.Holds preamble namer (group ++ [text]) ∧ next.files = s.files := by
  intro next
  have hoverflow := h.overflow maxBytes text
  rw [← hcore] at hoverflow
  have hnext : next = Segmenter.place preamble maxBytes threshold namer s.core.buffer.length
      { s with core } := rfl
  unfold Segmenter.place at hnext
  simp only [hoverflow] at hnext
  by_cases hfull : (!group.isEmpty && partFull preamble maxBytes (group ++ [text])) = true
  · rw [if_pos hfull] at hnext ⊢
    have hpart : s.part ++ core.buffer.take s.core.buffer.length = preamble ++ group.flatten := by
      rw [hcore, List.take_left, h.part]
    have hparts : s.parts ++ [namer s.parts.length] =
        (List.range (s.files.length + 1 + 1)).map namer := by
      rw [List.range_succ (n := s.files.length + 1), List.map_append, List.map_singleton, ← h.parts,
        h.parts, List.length_map, List.length_range]
    obtain ⟨hholds, hfiles, buffer, hbuffer⟩ := settle_holds preamble threshold namer
      { ((s.writeSegment (core.buffer.take s.core.buffer.length)).createSegment preamble
        namer) with
          progress := .fromPreamble preamble
          core := { core with buffer := core.buffer.drop s.core.buffer.length } }
      [text] (List.cons_ne_nil _ _)
      (by
        show preamble ++ core.buffer.drop s.core.buffer.length = _
        rw [hcore, List.drop_left, List.flatten_singleton])
      rfl
      (by
        show s.parts ++ [namer s.parts.length] =
          (List.range ((s.files ++ [_]).length + 1)).map namer
        rw [List.length_append, List.length_singleton]
        exact hparts)
    rw [hnext]
    exact ⟨⟨buffer, hbuffer⟩, hholds, hfiles.trans (congrArg (s.files ++ [·]) hpart)⟩
  · rw [if_neg hfull] at hnext ⊢
    obtain ⟨hholds, hfiles, buffer, hbuffer⟩ := settle_holds preamble threshold namer
      { s with core } (group ++ [text]) (by simp)
      (by
        show s.part ++ core.buffer = _
        rw [hcore, ← List.append_assoc, h.part, List.flatten_append, List.flatten_singleton,
          List.append_assoc])
      h.written h.parts
    rw [hnext]
    exact ⟨⟨buffer, hbuffer⟩, hholds, hfiles⟩

variable (maxBytes threshold) in
/-- **The loop** packs the rows of the values into parts, or fails as the rows do. -/
theorem Holds.run (h : s.Holds preamble namer group) (hw : s.core.Writes o options expected)
    (hbom : s.core.bom = .omit) (values : List Encoding) :
    match rows o options expected values with
    | .error e => s.run preamble maxBytes threshold namer values = .error (.emit e)
    | .ok records =>
      ∃ last, s.run preamble maxBytes threshold namer values = .ok last ∧
        last.parts = (List.range (last.files.length + 1)).map namer ∧
        last.files ++ [last.part ++ last.core.buffer] =
          s.files ++ (Pack.packFrom (partFull preamble maxBytes) group records).map
            (preamble ++ ·.flatten) := by
  induction values generalizing s group expected with
  | nil =>
    refine ⟨s, rfl, h.parts, ?_⟩
    rw [h.part]
    rfl
  | cons value values ih =>
    rw [rows, Segmenter.run, hw.encode]
    rcases hrecord : encoded o value with e | ⟨count, text⟩
    · rfl
    rcases hv : validateFieldCount options.fieldCount expected count with ⟨e | _, latched⟩
    · rw [hw.refuse hv]
      simp only [bind, Except.bind, hv]
      rfl
    obtain ⟨core, hsettle, hwrites, hcorebom, hbuffer, -⟩ := hw.accept hv text
    obtain ⟨⟨buffer, hcore⟩, hplace⟩ :=
      h.place maxBytes threshold (hbuffer hbom)
    have hnextw : ∀ next : Segmenter P, next.core = { core with buffer } →
        next.core.Writes o options latched ∧ next.core.bom = .omit := by
      intro next hnext
      rw [hnext]
      exact ⟨⟨hwrites.dialect, hwrites.quoting, hwrites.nulls, hwrites.fieldCount,
        hwrites.expectedFields⟩, hcorebom.trans hbom⟩
    obtain ⟨hw', hbom'⟩ := hnextw _ hcore
    rw [hsettle]
    simp only [bind, Except.bind, hv, PushEmitter.orFail]
    by_cases hfull : (!group.isEmpty && partFull preamble maxBytes (group ++ [text])) = true
    · rw [if_pos hfull] at hplace
      have hrest := ih hplace.1 hw' hbom'
      rcases hrows : rows o options latched values with e | records
      · rw [hrows] at hrest
        exact hrest
      · rw [hrows] at hrest
        obtain ⟨last, hrun, hparts, hfiles⟩ := hrest
        refine ⟨last, hrun, hparts, ?_⟩
        rw [hfiles, hplace.2, Pack.packFrom, if_pos hfull, List.map_cons, List.append_assoc]
        rfl
    · rw [if_neg hfull] at hplace
      have hrest := ih hplace.1 hw' hbom'
      rcases hrows : rows o options latched values with e | records
      · rw [hrows] at hrest
        exact hrest
      · rw [hrows] at hrest
        obtain ⟨last, hrun, hparts, hfiles⟩ := hrest
        refine ⟨last, hrun, hparts, ?_⟩
        rw [hfiles, hplace.2, Pack.packFrom, if_neg hfull]

end Segmenter

/-! ## Headers and preambles -/

/-- The header record of a type with those field names. -/
def headerRecord (o : FormatSettings) (fieldNames : List Bytes) : Except EmitError (ℕ × Bytes) :=
  counted fieldNames.length (recordText o.dialect o.quoting o.nulls (fieldNames.map some))

/-- The byte-order mark of a format. -/
def markOf (o : FormatSettings) : Bytes := if o.writeBom = .emit then bom else []

namespace PushEmitter

variable {o : FormatSettings} {options : EmitOptions} {expected : Option ℕ} {s : PushEmitter}

theorem Writes.header (h : s.Writes o options expected) (fieldNames : List Bytes) :
    s.emitRecord none fieldNames = s.settleRecord (headerRecord o fieldNames) := by
  rw [emitRecord_eq, text, List.length_map, h.dialect, h.quoting, h.nulls]
  rfl

theorem withOptions_error {reason : String} (h : o.invalidity = some reason) :
    withOptions o options = .error (.configuration reason) := by
  unfold withOptions
  split
  · rename_i reason' h'
    rw [h] at h'
    cases h'
    rfl
  · rename_i h'
    rw [h] at h'
    cases h'

variable (options) in
/-- An emitter that construction accepts writes records of the format, on an empty output. -/
theorem withOptions_ok (h : o.invalidity = none) :
    ∃ s, withOptions o options = .ok s ∧ s.Writes o options none ∧ s.bom = o.writeBom ∧
      s.buffer = [] ∧ s.Opened [] := by
  unfold withOptions
  split
  · rename_i reason h'
    rw [h] at h'
    cases h'
  · exact ⟨_, rfl, ⟨rfl, rfl, rfl, rfl, rfl⟩, rfl, rfl, rfl, rfl⟩

end PushEmitter

/-- Under `MatchFirst`, the header that is written has as many fields as the first record. -/
def HeaderAgrees (o : FormatSettings) (options : EmitOptions) (fieldNames : List Bytes)
    (values : List Encoding) : Prop :=
  options.hasHeaders = true → options.fieldCount = .matchFirst → ∀ value ∈ values.head?,
    ∀ count text, encoded o value = .ok (count, text) → count = fieldNames.length

section segments

variable {o : FormatSettings} {options : EmitOptions} {fieldNames : List Bytes}
  {values : List Encoding}

/-- A header that agrees with the first record latches what that record would. -/
theorem rows_latched (h : HeaderAgrees o options fieldNames values)
    (hheaders : options.hasHeaders = true) {latched : Option ℕ}
    (hv : validateFieldCount options.fieldCount none fieldNames.length = (.ok (), latched)) :
    rows o options latched values = rows o options none values := by
  cases hpolicy : options.fieldCount with
  | flexible =>
    rw [hpolicy] at hv
    cases hv
    rfl
  | exact required =>
    rw [hpolicy] at hv
    rw [show latched = none from (congrArg Prod.snd hv).symm]
  | matchFirst =>
    rw [hpolicy] at hv
    cases hv
    cases values with
    | nil => rfl
    | cons value values =>
      rw [rows, rows]
      rcases hrecord : encoded o value with e | ⟨count, text⟩
      · rfl
      · obtain rfl := h hheaders hpolicy value rfl count text hrecord
        simp only [bind, Except.bind, hpolicy, validateFieldCount, ↓reduceIte]

/-- Each row is the record of its value. -/
theorem rows_records {expected : Option ℕ} {records : List Bytes}
    (h : rows o options expected values = .ok records) :
    List.Forall₂ (fun value text => ∃ count, encoded o value = .ok (count, text)) values records := by
  induction values generalizing expected records with
  | nil =>
    cases h
    exact .nil
  | cons value values ih =>
    rw [rows] at h
    rcases hrecord : encoded o value with e | ⟨count, text⟩
    · rw [hrecord] at h
      cases h
    rw [hrecord] at h
    simp only [bind, Except.bind] at h
    rcases hv : validateFieldCount options.fieldCount expected count with ⟨e | _, latched⟩
    · rw [hv] at h
      cases h
    · rw [hv] at h
      simp only at h
      rcases hrows : rows o options latched values with e | rest
      · rw [hrows] at h
        cases h
      · rw [hrows] at h
        cases h
        exact .cons ⟨count, hrecord⟩ (ih hrows)

/-- The header that the options call for, if any, and the field count that it latches. -/
def headerRows (o : FormatSettings) (options : EmitOptions) (fieldNames : List Bytes) :
    Except EmitError (List Bytes × Option ℕ) :=
  if options.hasHeaders then do
    let (count, text) ← headerRecord o fieldNames
    match validateFieldCount options.fieldCount none count with
    | (.error e, _) => .error e
    | (.ok (), latched) => .ok ([text], latched)
  else .ok ([], none)

/-- A header record is the text of the field names. -/
theorem headerRows_header {header : List Bytes} {latched : Option ℕ}
    (h : headerRows o options fieldNames = .ok (header, latched)) :
    (if options.hasHeaders then
        ∃ text, recordText o.dialect o.quoting o.nulls (fieldNames.map some) = .ok text ∧
          header = [text]
      else header = []) ∧ rows o options latched [] = .ok [] ∧
      (options.hasHeaders = true →
        validateFieldCount options.fieldCount none fieldNames.length = (.ok (), latched)) ∧
      (options.hasHeaders = false → latched = none) := by
  unfold headerRows at h
  cases hheaders : options.hasHeaders with
  | false =>
    rw [hheaders, if_neg Bool.false_ne_true] at h
    cases h
    exact ⟨rfl, rfl, fun h => (by cases h), fun _ => rfl⟩
  | true =>
    rw [hheaders, if_pos rfl, headerRecord] at h
    rcases htext : recordText o.dialect o.quoting o.nulls (fieldNames.map some) with e | text
    · rw [htext] at h
      cases h
    rw [htext] at h
    simp only [counted, Except.map, bind, Except.bind] at h
    rcases hv : validateFieldCount options.fieldCount none fieldNames.length with ⟨e | _, latched'⟩
    · rw [hv] at h
      cases h
    · rw [hv] at h
      cases h
      exact ⟨⟨text, rfl, rfl⟩, rfl, fun _ => rfl, fun h => (by cases h)⟩

variable (fieldNames) in
/-- The header of an emitter that nothing has been written to. -/
theorem encodeHeader_rows {s : PushEmitter} (hw : s.Writes o options none) (hopen : s.Opened [])
    (hheaders : options.hasHeaders = true) :
    match headerRows o options fieldNames with
    | .error e => s.encodeHeader fieldNames = .error (.emit e)
    | .ok (header, latched) =>
      ∃ s', s.encodeHeader fieldNames = .ok s' ∧ s'.Writes o options latched ∧ s'.bom = s.bom ∧
        (s.bom = .omit → s'.buffer = s.buffer ++ header.flatten) ∧ s'.Opened header := by
  rw [PushEmitter.encodeHeader, hw.header, headerRows, if_pos hheaders]
  rcases headerRecord o fieldNames with e | ⟨count, text⟩
  · rfl
  rcases hv : validateFieldCount options.fieldCount none count with ⟨e | _, latched⟩
  · rw [hw.refuse hv]
    simp only [bind, Except.bind, hv]
    rfl
  · obtain ⟨s', hsettle, hwrites, hbom, hbuffer, hopened⟩ := hw.accept hv text
    rw [hsettle]
    simp only [bind, Except.bind, hv]
    refine ⟨s', rfl, hwrites, hbom, fun homit => ?_, hopened [] hopen⟩
    rw [List.flatten_singleton]
    exact hbuffer homit

/-- **One document**: the header and the rows behind one mark. -/
theorem encodeToVec_rows (hvalid : o.invalidity = none) :
    encodeToVec o options fieldNames values =
      match headerRows o options fieldNames with
      | .error e => .error (.emit e)
      | .ok (header, latched) =>
        match rows o options latched values with
        | .error e => .error (.emit e)
        | .ok records => .ok (PushEmitter.output o.writeBom (header ++ records)) := by
  obtain ⟨s, hnew, hw, hbom, -, hopen⟩ := PushEmitter.withOptions_ok options hvalid
  -- the records, behind the header that has been written
  have hall : ∀ {s' : PushEmitter} {header : List Bytes} {latched : Option ℕ},
      s'.Writes o options latched → s'.Opened header → s'.bom = o.writeBom →
      (do let emitter ← s'.encodeAll values; pure emitter.buffer : Except GenerateError Bytes) =
        match rows o options latched values with
        | .error e => .error (.emit e)
        | .ok records => .ok (PushEmitter.output o.writeBom (header ++ records)) := by
    intro s' header latched hw' hopen' hbom'
    have hrun := hw'.encodeAll values hopen'
    rcases hrows : rows o options latched values with e | records
    · rw [hrows] at hrun
      rw [hrun]
      rfl
    · rw [hrows] at hrun
      obtain ⟨last, hlast, hbuffer⟩ := hrun
      rw [hlast]
      show Except.ok last.buffer = Except.ok _
      rw [hbuffer, hbom']
  rw [encodeToVec, hnew]
  cases hheaders : options.hasHeaders with
  | false =>
    rw [headerRows, hheaders]
    exact hall hw hopen hbom
  | true =>
    have hheader := encodeHeader_rows fieldNames hw hopen hheaders
    rcases hrows : headerRows o options fieldNames with e | ⟨header, latched⟩
    · rw [hrows] at hheader
      simp only [bind, Except.bind, ↓reduceIte, hheader]
    · rw [hrows] at hheader
      obtain ⟨s', hs', hw', hbom', -, hopen'⟩ := hheader
      show (do
        let emitter ← s.encodeHeader fieldNames
        let emitter ← emitter.encodeAll values
        pure emitter.buffer : Except GenerateError Bytes) = _
      rw [hs']
      exact hall hw' hopen' (hbom'.trans hbom)

/-- The preamble of a part: the mark and the header. -/
theorem segmentPreamble_rows (hvalid : o.invalidity = none) :
    segmentPreamble o options fieldNames =
      match headerRows o options fieldNames with
      | .error e => .error (.emit e)
      | .ok (header, _) => .ok (markOf o ++ header.flatten) := by
  cases hheaders : options.hasHeaders with
  | false =>
    rw [segmentPreamble, headerRows, hheaders]
    simp only [Bool.false_eq_true, ↓reduceIte, List.flatten_nil, List.append_nil]
    rfl
  | true =>
    obtain ⟨s, hnew, hw, hbom, hnil, hopen⟩ := PushEmitter.withOptions_ok
      (o := { o with writeBom := .omit }) options hvalid
    have hheader := encodeHeader_rows fieldNames hw hopen hheaders
    rw [segmentPreamble, hheaders, if_pos rfl, hnew]
    have hsame : headerRows { o with writeBom := .omit } options fieldNames =
        headerRows o options fieldNames := rfl
    rw [hsame] at hheader
    rcases hrows : headerRows o options fieldNames with e | ⟨header, latched⟩
    · rw [hrows] at hheader
      simp only [bind, Except.bind, hheader]
    · rw [hrows] at hheader
      obtain ⟨s', hs', -, -, hbuffer, -⟩ := hheader
      simp only [bind, Except.bind, hs', hbuffer hbom, hnil, List.nil_append]
      rfl

/-- **Parts**: the preamble in front of each group of the rows. -/
theorem encodeToSegments_rows {P : Type} {maxBytes : ℕ} {namer : ℕ → P}
    (hvalid : o.invalidity = none) (hcapacity : 0 < options.bufferCapacity)
    (hcapacity' : options.bufferCapacity ≤ isizeMax) (hmax : 0 < maxBytes) :
    encodeToSegments o options fieldNames values maxBytes namer =
      match headerRows o options fieldNames with
      | .error e => .error (.emit e)
      | .ok (header, _) =>
        match rows o options none values with
        | .error e => .error (.emit e)
        | .ok records =>
          let preamble := markOf o ++ header.flatten
          let groups := Pack.pack (partFull preamble maxBytes) records
          .ok ((List.range groups.length).map namer, groups.map (preamble ++ ·.flatten)) := by
  have hbuffered : options.validateBuffered o = .ok () := by
    rw [EmitOptions.validateBuffered, FormatSettings.validate, hvalid, validateBufferCapacity]
    show (if options.bufferCapacity = 0 then _ else if isizeMax < options.bufferCapacity then _
      else _) = _
    rw [if_neg (Nat.pos_iff_ne_zero.1 hcapacity), if_neg (Nat.not_lt.2 hcapacity')]
  obtain ⟨core, hnew, hw, hbom, hnil, -⟩ := PushEmitter.withOptions_ok
    (o := { o with writeBom := .omit }) options hvalid
  rw [encodeToSegments, hbuffered]
  show (if maxBytes = 0 then _ else _) = _
  rw [if_neg (Nat.pos_iff_ne_zero.1 hmax), segmentPreamble_rows hvalid]
  rcases headerRows o options fieldNames with e | ⟨header, latched⟩
  · rfl
  have hw' : core.Writes o options none :=
    ⟨hw.dialect, hw.quoting, hw.nulls, hw.fieldCount, hw.expectedFields⟩
  have hholds : (⟨core, [namer 0], [], markOf o ++ header.flatten,
      .fromPreamble (markOf o ++ header.flatten)⟩ : Segmenter P).Holds
        (markOf o ++ header.flatten) namer [] :=
    ⟨by rw [hnil, List.flatten_nil], rfl, rfl, rfl⟩
  have hrun := hholds.run maxBytes options.bufferCapacity hw' hbom values
  simp only [bind, Except.bind, hnew]
  rcases hrows : rows o options none values with e | records
  · rw [hrows] at hrun
    simp only [hrun]
  · rw [hrows] at hrun
    obtain ⟨last, hlast, hparts, hfiles⟩ := hrun
    simp only [hlast, Segmenter.writeSegment]
    have hlen := congrArg List.length hfiles
    rw [List.length_append, List.length_singleton, List.nil_append, List.length_map] at hlen
    rw [hfiles, hparts, hlen, List.nil_append]
    rfl

end segments

/-! ## The partition -/

/-- The files are the document in parts: the mark and the header, and behind them the records
    of one group. -/
structure Segmented (o : FormatSettings) (options : EmitOptions) (fieldNames : List Bytes)
    (values : List Encoding) (maxBytes : ℕ) (document : Bytes) (files : List Bytes)
    (header records : List Bytes) (groups : List (List Bytes)) : Prop where
  /-- the header record, when the options call for one -/
  header_eq : if options.hasHeaders then
      ∃ text, recordText o.dialect o.quoting o.nulls (fieldNames.map some) = .ok text ∧
        header = [text]
    else header = []
  /-- one record for each value -/
  records_eq : List.Forall₂ (fun value text => ∃ count, encoded o value = .ok (count, text))
    values records
  document_eq : document = PushEmitter.output o.writeBom (header ++ records)
  files_eq : files = groups.map fun g => markOf o ++ header.flatten ++ g.flatten
  joined : groups.flatten = records
  /-- without values there is one part, of the header alone -/
  empty : values = [] → groups = [[]]
  nonempty : values ≠ [] → [] ∉ groups
  /-- a part past the bound has one record, or is the header alone; sizes are `u64` -/
  bounded : ∀ g ∈ groups, (markOf o ++ header.flatten ++ g.flatten).length ≤ u64Max →
    maxBytes < (markOf o ++ header.flatten ++ g.flatten).length → g.length ≤ 1
  /-- a part is closed only for a record that would have pushed it past the bound -/
  tight : groups.IsChain fun a b => ∃ r rest, b = r :: rest ∧
    maxBytes < (markOf o ++ header.flatten ++ (a ++ [r]).flatten).length

/-- **Segmented encoding partitions the document**: with a buffer capacity that is accepted
    and a bound above zero, `encode_to_segments` fails as `encode_to_vec` does, and else its
    files are the document in parts. -/
theorem segments_partition {P : Type} (o : FormatSettings) (options : EmitOptions)
    (fieldNames : List Bytes) (values : List Encoding) (maxBytes : ℕ) (namer : ℕ → P)
    (hmax : 0 < maxBytes) (hcapacity : 0 < options.bufferCapacity)
    (hcapacity' : options.bufferCapacity ≤ isizeMax)
    (hheader : HeaderAgrees o options fieldNames values) :
    match encodeToVec o options fieldNames values with
    | .error e => encodeToSegments o options fieldNames values maxBytes namer = .error e
    | .ok document =>
      ∃ files header records groups,
        encodeToSegments o options fieldNames values maxBytes namer =
          .ok ((List.range files.length).map namer, files) ∧
        Segmented o options fieldNames values maxBytes document files header records groups := by
  rcases hvalid : o.invalidity with _ | reason
  swap
  · have hvec : encodeToVec o options fieldNames values = .error (.configuration reason) := by
      rw [encodeToVec, PushEmitter.withOptions_error hvalid]
      rfl
    rw [hvec, encodeToSegments, EmitOptions.validateBuffered, FormatSettings.validate, hvalid]
    rfl
  rw [encodeToVec_rows hvalid, encodeToSegments_rows hvalid hcapacity hcapacity' hmax]
  rcases hrows : headerRows o options fieldNames with e | ⟨header, latched⟩
  · rfl
  obtain ⟨hheader_eq, -, hlatched, hnone⟩ := headerRows_header hrows
  have hsame : rows o options latched values = rows o options none values := by
    cases hheaders : options.hasHeaders with
    | true => exact rows_latched hheader hheaders (hlatched hheaders)
    | false => rw [hnone hheaders]
  simp only [hsame]
  rcases hrecords : rows o options none values with e | records
  · rfl
  have hforall := rows_records hrecords
  have hpacking := Pack.pack_packing (partFull (markOf o ++ header.flatten) maxBytes) records
  have hempty : values = [] ↔ records = [] := by
    rw [← List.length_eq_zero_iff, ← List.length_eq_zero_iff, hforall.length_eq]
  refine ⟨_, header, records, Pack.pack (partFull (markOf o ++ header.flatten) maxBytes) records,
    by rw [List.length_map], hheader_eq, hforall, rfl, rfl, hpacking.joined, fun h => hpacking.empty (hempty.1 h),
    fun h => hpacking.nonempty (mt hempty.2 h), ?_, ?_⟩
  · intro g hg hsize hlarge
    refine hpacking.alone g hg ?_
    rw [List.length_append] at hsize hlarge
    rw [partFull, decide_eq_true_eq]
    omega
  · refine hpacking.tight.imp ?_
    rintro a b ⟨r, rest, rfl, hfull⟩
    refine ⟨r, rest, rfl, ?_⟩
    rw [partFull, decide_eq_true_eq] at hfull
    rw [List.length_append]
    omega

/-- The encoding that visits one field. -/
def oneField (field : Bytes) : Encoding := .visitField field .done

/-- Two records of two bytes, under a header of two, in parts of at most four bytes. -/
theorem segments_partition_two_parts :
    ∃ files header records groups,
      encodeToSegments { dialect := .csv } {} [[97]] [oneField [49], oneField [50]] 4 id =
        .ok ((List.range files.length).map id, files) ∧
      Segmented { dialect := .csv } {} [[97]] [oneField [49], oneField [50]] 4
        [97, 10, 49, 10, 50, 10] files header records groups := by
  have h := segments_partition { dialect := .csv } {} [[97]] [oneField [49], oneField [50]] 4 id
    (by decide) (by decide) (by decide) nofun
  have hvec : encodeToVec { dialect := .csv } {} [[97]] [oneField [49], oneField [50]] =
      .ok [97, 10, 49, 10, 50, 10] := by decide
  rw [hvec] at h
  exact h

/-- A capacity of zero is refused by `encode_to_segments` alone; and without values, a header
    that is longer than the bound is a part of no records. -/
theorem segments_zero_capacity :
    (encodeToVec { dialect := .csv } { bufferCapacity := 0 } [[97]] [oneField [49]] =
        .ok [97, 10, 49, 10] ∧
      encodeToSegments { dialect := .csv } { bufferCapacity := 0 } [[97]] [oneField [49]] 4 id =
        .error (.configuration "buffer capacity must be greater than zero")) ∧
    encodeToSegments { dialect := .csv } {} [[97]] [] 1 id = .ok ([0], [[97, 10]]) := by
  decide

end Coseva
