/-
  Coseva — runs of the push emitter: a refused operation leaves no trace, and
  the byte-order mark opens the document.

  Everything an operation writes is decided by the configuration and its own
  fields, wherever the output stands (`Local`); so it can be cut off again, and
  a run without the operation writes the same.

  * `visited_local`, `serializeDirect_shift`: typed values write locally, whatever
    calls their implementation makes;
  * `apply_refused`: an operation that does not commit leaves the document as
    it was;
  * `run_committing`: a run and its committing operations end in the same
    document;
  * `run_bom`: the output is that of the same run without a mark, behind one
    mark once a record is committed.
-/
import Coseva.EmitText
import Coseva.PushEmitter

namespace Coseva

open Append Append.M

variable (F : CsvFormat)

/-! ## Typed values write locally -/

namespace Visitor

/-- The visitor moved behind `out`. -/
def behind (v : Visitor) (out : Bytes) : Visitor :=
  { v with output := out ++ v.output, recordStart := out.length + v.recordStart }

theorem run_behind {m : Emit Unit} (hm : Local m) (v : Visitor) (out : Bytes) :
    (v.behind out).run m = ((v.run m).1, (v.run m).2.behind out) := by
  simp only [run, behind, hm.shift]

theorem delimiter_local (v : Visitor) :
    Local (onlyIf (v.fieldCount ≠ 0) (writeDelimiter v.dialect)) :=
  (appends_onlyIf (writeDelimiter_appends _)).isLocal

theorem writeField_behind (v : Visitor) (field out : Bytes) :
    (v.behind out).writeField F field =
      ((v.writeField F field).1, (v.writeField F field).2.behind out) := by
  unfold writeField
  split
  · refine run_behind ?_ (v.count field) out
    refine (appends_onlyIf (appends_push _)).isLocal.bind fun _ => ?_
    rw [writeCsvNecessary_eq]; exact (writeNecessary_writes _ _ _).isLocal
  · refine run_behind ?_ (v.count field) out
    refine (delimiter_local v).bind fun _ => ?_
    split
    · exact (writePlain_writes _ _ _ _).isLocal
    · exact (writeConfiguredField_writes _ _ _ _ _).isLocal

theorem writeNullField_behind (v : Visitor) (out : Bytes) :
    (v.behind out).writeNullField = (v.writeNullField.1, v.writeNullField.2.behind out) :=
  run_behind ((delimiter_local v).bind fun _ => (writeAbsent_writes _ _ _).isLocal) v.countNull out

theorem finish_behind (v : Visitor) (out : Bytes) :
    (v.behind out).finish = (v.finish.1, out ++ v.finish.2) := by
  have hlone : ∀ (c : Prop) [Decidable c], Local (do
      onlyIf c (extend [v.dialect.quote, v.dialect.quote])
      finishRecord v.dialect
      pure v.fieldCount : Emit ℕ) := fun c _ =>
    (appends_onlyIf (appends_extend _)).isLocal.bind fun _ =>
      (finishRecord_appends _).isLocal.bind fun _ => (appends_pure _).isLocal
  have hlen : (out ++ v.output).length = out.length + v.recordStart ↔
      v.output.length = v.recordStart := by
    rw [List.length_append]; omega
  rw [finish, finish, ← (hlone _).shift out v.output]
  have hsame := onlyIf_congr (and_congr_right fun _ : v.fieldCount = 1 => and_congr_right
    fun _ : v.onlyFieldWasNonNullEmpty = true => and_congr_right
    fun _ : v.quoting = .necessary => hlen)
    (extend [v.dialect.quote, v.dialect.quote] : Emit Unit)
  exact congrFun (congrArg (fun m : Emit Unit => m >>= fun _ =>
    finishRecord v.dialect >>= fun _ => pure v.fieldCount) hsame) (out ++ v.output)

theorem new_behind (out : Bytes) (d : Dialect) (quoting : Quoting) (nulls : Nulls) :
    new F out d quoting nulls = (new F [] d quoting nulls).behind out := by
  simp [new, behind]

end Visitor

theorem Encoding.run_behind (value : Encoding) :
    ∀ (v : Visitor) (out : Bytes), value.run F (v.behind out) =
      ((value.run F v).1, (value.run F v).2.behind out) := by
  induction value with
  | done result => intro v out; rfl
  | visitField bytes next ih =>
    intro v out
    simp only [run, Visitor.writeField_behind, ih]
  | visitNull next ih =>
    intro v out
    simp only [run, Visitor.writeNullField_behind, ih]

/-- **A native value writes locally**, whatever calls it makes. -/
theorem visited_local (s : PushEmitter) (value : Encoding) : Local (s.visited F value) := by
  refine local_of_shift fun out => ?_
  simp only [PushEmitter.visited, Visitor.new_behind F out, value.run_behind]
  rcases value.run F (.new F [] s.dialect s.quoting s.nulls) with ⟨e | _, v⟩
  · rfl
  · exact v.finish_behind out

namespace DirectSink

def behind (s : DirectSink) (out : Bytes) : DirectSink :=
  { s with visitor := s.visitor.behind out }

theorem appendField_behind (s : DirectSink) (field out : Bytes) :
    (s.behind out).appendField F field =
      ((s.appendField F field).1, (s.appendField F field).2.behind out) := by
  simp only [appendField, behind, Visitor.writeField_behind]

theorem finishField_behind (s : DirectSink) (out : Bytes) :
    (s.behind out).finishField F = ((s.finishField F).1, (s.finishField F).2.behind out) := by
  simp only [finishField, behind, Visitor.writeField_behind]

theorem finishNullField_behind (s : DirectSink) (out : Bytes) :
    (s.behind out).finishNullField = (s.finishNullField.1, s.finishNullField.2.behind out) := by
  simp only [finishNullField, behind, Visitor.writeNullField_behind]

theorem format_behind (s : DirectSink) (pieces : List Bytes) (ok : Bool) (out : Bytes) :
    (s.behind out).format pieces ok =
      ((s.format pieces ok).1, (s.format pieces ok).2.behind out) := by
  have hfold : ∀ s : DirectSink,
      pieces.foldl extendBytes (s.behind out) = (pieces.foldl extendBytes s).behind out := by
    induction pieces with
    | nil => intro s; rfl
    | cons piece pieces ih => intro s; exact ih (s.extendBytes piece)
  simp only [format, hfold]

end DirectSink

def FieldSerializer.behind (f : FieldSerializer) (out : Bytes) : FieldSerializer :=
  { f with sink := f.sink.behind out }

theorem Value.serializeField_behind (value : Value) (f : FieldSerializer) (out : Bytes) :
    value.serializeField F (f.behind out) =
      ((value.serializeField F f).1, (value.serializeField F f).2.behind out) := by
  fun_induction Value.serializeField F value f <;>
    simp_all [Value.serializeField, FieldSerializer.behind, DirectSink.appendField_behind,
      DirectSink.format_behind]

/-- A result moved behind `out`. -/
def RecordSerializer.behind (ser : RecordSerializer) (out : Bytes) : RecordSerializer :=
  { ser with sink := ser.sink.behind out }

theorem RecordSerializer.pushField_behind (ser : RecordSerializer) (value : Value) (out : Bytes) :
    (ser.behind out).pushField F value =
      ((ser.pushField F value).1, (ser.pushField F value).2.behind out) := by
  have hfield := value.serializeField_behind F ⟨ser.sink, false, false⟩ out
  simp only [pushField, behind]
  rw [show (⟨ser.sink.behind out, false, false⟩ : FieldSerializer) =
    FieldSerializer.behind ⟨ser.sink, false, false⟩ out from rfl, hfield]
  rcases value.serializeField F ⟨ser.sink, false, false⟩ with ⟨e | _, f⟩
  · rfl
  · obtain ⟨sink, null, complete⟩ := f
    cases null
    · cases complete
      · exact congrArg (fun r => onSink (ser.behind out) r) (sink.finishField_behind F out)
      · rfl
    · exact congrArg (fun r => onSink (ser.behind out) r) (sink.finishNullField_behind out)

mutual

theorem Value.serializeRecord_behind (value : Value) (ser : RecordSerializer) (out : Bytes) :
    value.serializeRecord F (ser.behind out) =
      ((value.serializeRecord F ser).1, (value.serializeRecord F ser).2.behind out) := by
  cases value with
  | scalar text =>
    simp only [Value.serializeRecord, RecordSerializer.onSink, RecordSerializer.behind,
      DirectSink.appendField_behind]
  | none =>
    simp only [Value.serializeRecord, RecordSerializer.onSink, RecordSerializer.behind,
      DirectSink.finishNullField_behind]
  | some value => exact value.serializeRecord_behind ser out
  | unit =>
    simp only [Value.serializeRecord, RecordSerializer.onSink, RecordSerializer.behind,
      DirectSink.finishField_behind]
  | newtypeStruct value => exact value.serializeRecord_behind ser out
  | variant shape => rfl
  | map => rfl
  | compound shape elements =>
    simp only [Value.serializeRecord]
    split
    · exact elements.serialize_behind shape
        { ser with headers := ser.headers.map fun h => { h with named := true } } out
    · exact elements.serialize_behind shape ser out
  | display pieces ok =>
    simp only [Value.serializeRecord, RecordSerializer.behind, DirectSink.format_behind]
    rcases ser.sink.format pieces ok with ⟨e | _, sink⟩
    · rfl
    · simp only [RecordSerializer.onSink, DirectSink.finishField_behind]
  | fails error => rfl
  | failsAfter value error =>
    simp only [Value.serializeRecord, value.serializeRecord_behind ser out]
    rcases value.serializeRecord F ser with ⟨e | _, ser'⟩ <;> rfl

theorem Elements.serialize_behind (elements : Elements) (shape : Compound)
    (ser : RecordSerializer) (out : Bytes) :
    elements.serialize F shape (ser.behind out) =
      ((elements.serialize F shape ser).1, (elements.serialize F shape ser).2.behind out) := by
  cases elements with
  | done => rfl
  | fails error => rfl
  | element key value next =>
    have hkey : (ser.behind out).noteKey shape key = (ser.noteKey shape key).behind out := by
      unfold RecordSerializer.noteKey; split <;> rfl
    simp only [Elements.serialize, hkey]
    generalize ser.noteKey shape key = ser
    rw [show (ser.behind out).nesting = ser.nesting from rfl]
    split
    · rw [show (ser.behind out).nested = ser.nested.behind out from rfl,
        value.serializeRecord_behind ser.nested out]
      exact (next _).serialize_behind shape
        { ser with sink := (value.serializeRecord F ser.nested).2.sink } out
    · rw [RecordSerializer.pushField_behind]
      exact (next _).serialize_behind shape _ out

end

/-- Framed behind `out`, a value is framed the same. -/
theorem serializeDirect_shift (value : Value) (out : Bytes) (d : Dialect) (quoting : Quoting)
    (nulls : Nulls) (allowNested : Bool) :
    let r := serializeDirect F value [] d quoting nulls allowNested
    serializeDirect F value out d quoting nulls allowNested = (r.1, out ++ r.2.1, r.2.2) := by
  have hnew : (⟨DirectSink.new F out d quoting nulls, none, .ofBool allowNested⟩ :
      RecordSerializer) = RecordSerializer.behind
        ⟨DirectSink.new F [] d quoting nulls, none, .ofBool allowNested⟩ out := by
    rw [DirectSink.new, Visitor.new_behind]; rfl
  simp only [serializeDirect, hnew, value.serializeRecord_behind]
  rcases value.serializeRecord F ⟨DirectSink.new F [] d quoting nulls, none, .ofBool allowNested⟩
    with ⟨e | _, ser⟩
  · rfl
  · simp only [RecordSerializer.behind, DirectSink.behind, Visitor.finish_behind]

theorem serializeDirectWithHeaders_shift (value : Value) (out : Bytes) (d : Dialect)
    (quoting : Quoting) (nulls : Nulls) :
    let r := serializeDirectWithHeaders F value [] d quoting nulls
    serializeDirectWithHeaders F value out d quoting nulls = (r.1, out ++ r.2.1, r.2.2) := by
  have hnew : (⟨DirectSink.new F out d quoting nulls, some ⟨[], false⟩, .reject⟩ :
      RecordSerializer) = RecordSerializer.behind
        ⟨DirectSink.new F [] d quoting nulls, some ⟨[], false⟩, .reject⟩ out := by
    rw [DirectSink.new, Visitor.new_behind]; rfl
  simp only [serializeDirectWithHeaders, hnew, value.serializeRecord_behind]
  rcases value.serializeRecord F ⟨DirectSink.new F [] d quoting nulls, some ⟨[], false⟩, .reject⟩
    with ⟨e | _, ser⟩
  · rfl
  · simp only [RecordSerializer.behind, DirectSink.behind, Visitor.finish_behind]

/-! ## What an operation drafts -/

namespace PushEmitter

/-- The emitter up to its scratch, which every operation clears before use. -/
def document (s : PushEmitter) : PushEmitter :=
  { s with serdeHeader := [], serdeScratch := [], builderScratch := .empty }

/-- The text of a record under the emitter's configuration. -/
def text (s : PushEmitter) (fields : List (Option Bytes)) : Except EmitError (ℕ × Bytes) :=
  counted fields.length
    (recordText (F.dialect s.dialect) (F.quoting s.quoting) (F.nulls s.nulls) fields)

/-- What a result leaves behind on an empty output. -/
def drafted (r : Except EmitError ℕ × Bytes) : Except EmitError (ℕ × Bytes) :=
  r.1.map fun count => (count, r.2)

/-- The record a first serialized value drafts, with its header row if it is a
    named struct. -/
def draftWithHeaders (s : PushEmitter) (value : Value) : Except EmitError (ℕ × Bytes) :=
  match serializeDirectWithHeaders F value [] s.dialect s.quoting s.nulls with
  | (.error e, _) => .error e
  | (.ok (true, _), row, _, headers) =>
    (s.text F (headers.map some)).map fun (count, header) => (count, header ++ row)
  | (.ok (false, count), row, _, _) => .ok (count, row)

/-- **The record an operation drafts**: its field count and its bytes, the
    error it is refused with, or nothing if it is dropped.  Only the allocator
    of `emit_slices` looks at the buffer. -/
def draft (s : PushEmitter) : Op → Except EmitError (Option (ℕ × Bytes))
  | .emitRecord fields => (s.text F (fields.map some)).map some
  | .emitSlices grants fields =>
    match slicesCapacity fields with
    | .error e => .error e
    | .ok capacity =>
      if grants (s.buffer.length + capacity) = false then
        .error (.encode "emitter output allocation failed")
      else (s.text none (fields.map some)).map some
  | .emitNullableRecord fields => (s.text F fields).map some
  | .emitByteRecord record => (s.text F record.fields).map some
  | .encode value => (drafted (s.visited F value [])).map some
  | .serialize value =>
    match s.serdeHeaders with
    | .pending => (s.draftWithHeaders F value).map some
    | .written =>
      let r := serializeDirect F value [] s.dialect s.quoting s.nulls false
      (drafted (r.1, r.2.1)).map some
    | .disabled =>
      let r := serializeDirect F value [] s.dialect s.quoting s.nulls true
      (drafted (r.1, r.2.1)).map some
  | .buildRecord fields => (s.text F fields).map some
  | .dropRecord _ => .ok none

/-- The header state after a committed operation. -/
def headersAfter (s : PushEmitter) : Op → SerdeHeaderState
  | .serialize _ => if s.serdeHeaders = .pending then .written else s.serdeHeaders
  | _ => s.serdeHeaders

/-- Accept a drafted record, or leave the emitter alone. -/
def settleDraft (s : PushEmitter) (headers : SerdeHeaderState) :
    Except EmitError (Option (ℕ × Bytes)) → Except EmitError Bool × PushEmitter
  | .error e => (.error e, s)
  | .ok none => (.ok false, s)
  | .ok (some (count, text)) =>
    match validateFieldCount s.fieldCount s.expectedFields count with
    | (.error e, _) => (.error e, s)
    | (.ok (), expected) =>
      (.ok true, { s with
        buffer := s.buffer ++ text, expectedFields := expected, serdeHeaders := headers }.commit)

/-- A drafted record, before its verdict is told apart from a drop. -/
def settleRecord (s : PushEmitter) : Except EmitError (ℕ × Bytes) → Except EmitError Unit × PushEmitter
  | .error e => (.error e, s)
  | .ok (count, text) =>
    match validateFieldCount s.fieldCount s.expectedFields count with
    | (.error e, _) => (.error e, s)
    | (.ok (), expected) =>
      (.ok (), { s with buffer := s.buffer ++ text, expectedFields := expected }.commit)

theorem settleDraft_record (s : PushEmitter) (r : Except EmitError (ℕ × Bytes)) :
    apply.committed (s.settleRecord r) = s.settleDraft s.serdeHeaders (r.map some) := by
  rcases r with e | ⟨count, text⟩
  · rfl
  · rw [settleRecord]
    show _ = s.settleDraft s.serdeHeaders (.ok (some (count, text)))
    rw [settleDraft]
    rcases validateFieldCount s.fieldCount s.expectedFields count with ⟨e | _, expected⟩ <;> rfl

theorem validateFieldCount_error {policy : FieldCount} {expected expected' : Option ℕ} {count : ℕ}
    {e : EmitError} (h : validateFieldCount policy expected count = (.error e, expected')) :
    expected' = expected := by
  cases policy with
  | flexible => cases h
  | exact required => exact (congrArg Prod.snd h).symm
  | matchFirst =>
    cases expected with
    | none => cases h
    | some required => exact (congrArg Prod.snd h).symm

/-- A record written behind the buffer is validated and committed, or cut off. -/
theorem finishRecord_eq (s : PushEmitter) (row : Bytes) (encoded : Except EmitError ℕ) :
    { s with buffer := s.buffer ++ row }.finishRecord s.buffer.length encoded =
      s.settleRecord (drafted (encoded, row)) := by
  rcases encoded with e | count
  · simp [finishRecord, rollback, drafted, Except.map, settleRecord]
  · show (match validateFieldCount s.fieldCount s.expectedFields count with
      | (.error e, expected) => _ | (.ok (), expected) => _) =
        (match validateFieldCount s.fieldCount s.expectedFields count with
      | (.error e, _) => _ | (.ok (), expected) => _)
    rcases hv : validateFieldCount s.fieldCount s.expectedFields count with ⟨e | _, expected⟩
    · rw [validateFieldCount_error hv]; simp [rollback]
    · rfl

/-- A local writer is validated and committed, or cut off. -/
theorem encodeWith_eq (s : PushEmitter) {m : Emit ℕ} (hm : Local m) :
    s.encodeWith m = s.settleRecord (drafted (m [])) := by
  have hshift := hm.shift s.buffer []
  rw [List.append_nil] at hshift
  rw [encodeWith, hshift]
  exact s.finishRecord_eq (m []).2 (m []).1

theorem drafted_of_writes {m : Emit ℕ} {count : ℕ} {text : Except EmitError Bytes}
    (hm : Writes m (counted count text)) : drafted (m []) = counted count text := by
  rcases text with e | text
  · obtain ⟨bs, h⟩ := hm; rw [h []]; rfl
  · have h : Appends m (.ok count) text := hm
    rw [h []]; rfl

theorem encodeWith_writes (s : PushEmitter) {m : Emit ℕ} {count : ℕ}
    {text : Except EmitError Bytes} (hm : Writes m (counted count text)) :
    s.encodeWith m = s.settleRecord (counted count text) := by
  rw [s.encodeWith_eq hm.isLocal, drafted_of_writes hm]

/-! ### Every entry point settles its draft -/

theorem emitRecord_eq (s : PushEmitter) (fields : List Bytes) :
    s.emitRecord F fields = s.settleRecord (s.text F (fields.map some)) := by
  unfold emitRecord text
  rw [List.length_map]
  split
  · rename_i h
    rw [h.1]; exact s.encodeWith_writes (emitRecordRuntime_writes h.2 _ fields)
  · have h := emitNullableRecordRuntime_writes (F.dialect s.dialect) (F.quoting s.quoting)
      (F.nulls s.nulls) (fields.map some)
    rw [List.length_map] at h
    exact s.encodeWith_writes h

theorem emitNullable_eq (s : PushEmitter) (fields : List (Option Bytes)) :
    s.emitNullable F fields = s.settleRecord (s.text F fields) :=
  s.encodeWith_writes (emitNullableRecordRuntime_writes _ _ _ fields)

theorem emitByteRecord_eq (s : PushEmitter) (record : ByteRecord) :
    s.emitByteRecord F record = s.settleRecord (s.text F record.fields) := by
  unfold emitByteRecord
  cases h : record.nullAware
  · have hiter : record.iter.map some = record.fields := by
      have hp := record.present h
      rw [ByteRecord.iter, List.map_map]
      conv_rhs => rw [← List.map_id record.fields]
      refine List.map_congr_left fun field hf => ?_
      cases field with
      | none => exact absurd hf hp
      | some field => rfl
    rw [if_neg (by simp), emitRecord_eq, hiter]
  · rw [if_pos rfl, emitNullable_eq]

theorem emitSlices_eq (s : PushEmitter) (grants : ℕ → Bool) (fields : List Bytes) :
    s.emitSlices grants fields =
      match slicesCapacity fields with
      | .error e => (.error e, s)
      | .ok capacity =>
        if grants (s.buffer.length + capacity) = false then
          (.error (.encode "emitter output allocation failed"), s)
        else s.settleRecord (s.text none (fields.map some)) := by
  have hrefuse : ∀ (m : Emit ℕ) (e : EmitError), m s.buffer = (.error e, s.buffer) →
      s.encodeWith m = (.error e, s) := by
    intro m e h
    rw [encodeWith, h]; simp [finishRecord, rollback]
  have hwrite : ∀ m m' : Emit ℕ, m s.buffer = m' s.buffer → s.encodeWith m = s.encodeWith m' := by
    intro m m' h; rw [encodeWith, encodeWith, h]
  unfold emitSlices
  rcases hc : slicesCapacity fields with e | capacity
  · exact hrefuse _ _ (by rw [emitSlicesRuntime, hc])
  · dsimp only
    by_cases hg : grants (s.buffer.length + capacity) = false
    · rw [if_pos hg]
      exact hrefuse _ _ (by simp only [emitSlicesRuntime, hc]; rw [if_pos hg])
    · rw [if_neg hg, ← s.emitRecord_eq none fields]
      refine hwrite _ _ ?_
      simp only [emitSlicesRuntime, hc]
      rw [if_neg hg]
      have hpath : (CsvFormat.nulls none s.nulls = .none ∧
          (CsvFormat.dialect none s.dialect).escape.escapesUnquoted = false) ↔
          (s.nulls = .none ∧ s.dialect.escape.escapesUnquoted = false) := Iff.rfl
      by_cases h : s.nulls = .none ∧ s.dialect.escape.escapesUnquoted = false
      · rw [if_pos h, if_pos (hpath.mpr h)]; rfl
      · rw [if_neg h, if_neg (mt hpath.mp h)]; rfl

theorem encode_eq (s : PushEmitter) (value : Encoding) :
    s.encode F value = s.settleRecord (drafted (s.visited F value [])) :=
  s.encodeWith_eq (visited_local F s value)

theorem serializeDirectRecord_eq (s : PushEmitter) (value : Value) (allowNested : Bool) :
    let r := serializeDirect F value [] s.dialect s.quoting s.nulls allowNested
    s.serializeDirectRecord F value allowNested =
      { s with serdeScratch := r.2.2 }.settleRecord (drafted (r.1, r.2.1)) := by
  have hshift := serializeDirect_shift F value s.buffer s.dialect s.quoting s.nulls allowNested
  simp only [serializeDirectRecord]
  rw [hshift]
  exact finishRecord_eq
    { s with serdeScratch := (serializeDirect F value [] s.dialect s.quoting s.nulls allowNested).2.2 }
    _ _

theorem serializeFirstWithHeaders_eq (s : PushEmitter) (value : Value) :
    ∃ s' : PushEmitter, s'.document = s.document ∧
      s.serializeFirstWithHeaders F value =
        headersWritten (s'.settleRecord (s.draftWithHeaders F value)) := by
  have hshift := serializeDirectWithHeaders_shift F value s.buffer s.dialect s.quoting s.nulls
  rcases hr : serializeDirectWithHeaders F value [] s.dialect s.quoting s.nulls
    with ⟨outcome, row, scratch, headers⟩
  rw [hr] at hshift
  refine ⟨{ s with serdeScratch := scratch, serdeHeader := headers }, rfl, ?_⟩
  have hcommit : { s with
        buffer := s.buffer ++ row
        serdeScratch := scratch
        serdeHeader := headers }.commitFirstWithHeaders F s.buffer.length headers outcome =
      { s with serdeScratch := scratch, serdeHeader := headers }.settleRecord
        (s.draftWithHeaders F value) := by
    rw [draftWithHeaders, hr]
    rcases outcome with e | ⟨_ | _, count⟩
    · simp [commitFirstWithHeaders, rollback, settleRecord]
    · exact finishRecord_eq { s with serdeScratch := scratch, serdeHeader := headers } row (.ok count)
        |> Eq.trans (by
          simp only [commitFirstWithHeaders, finishRecord]
          rcases hv : validateFieldCount s.fieldCount s.expectedFields count with ⟨e | _, expected⟩
          · rw [validateFieldCount_error hv]
          · rfl)
    · have hw := drafted_of_writes (emitNullableRecordRuntime_writes (F.dialect s.dialect)
        (F.quoting s.quoting) (F.nulls s.nulls) (headers.map some))
      rw [← text] at hw
      simp only [commitFirstWithHeaders]
      rw [← hw]
      rcases emitNullableRecordRuntime (F.dialect s.dialect) (F.quoting s.quoting)
        (F.nulls s.nulls) (headers.map some) [] with ⟨e | n, header⟩
      · simp [rollback, settleRecord, drafted, Except.map]
      · simp only [drafted, Except.map, settleRecord]
        rcases validateFieldCount s.fieldCount s.expectedFields n with ⟨e | _, expected⟩
        · simp [rollback]
        · simp
  rw [← hcommit]
  simp only [serializeFirstWithHeaders, hshift]

/-- The staging record of a builder has the fields written to it. -/
theorem ofFields_fields (fields : List (Option Bytes)) :
    (ByteRecord.ofFields fields).fields = fields := by
  have hfold : ∀ (r : ByteRecord), (fields.foldl (fun r field =>
      field.elim r.pushNull r.pushField) r).fields = r.fields ++ fields := by
    induction fields with
    | nil => simp
    | cons field fields ih =>
      intro r
      rw [List.foldl_cons, ih]
      cases field <;> simp [ByteRecord.pushNull, ByteRecord.pushField]
  simpa [ByteRecord.ofFields, ByteRecord.empty] using hfold .empty

/-! ### An operation settles its draft -/

/-- Only what `document` keeps decides how a draft is settled. -/
theorem settleDraft_document {s s' : PushEmitter} (h : s'.document = s.document)
    (headers : SerdeHeaderState) (r : Except EmitError (Option (ℕ × Bytes))) :
    (s'.settleDraft headers r).1 = (s.settleDraft headers r).1 ∧
      (s'.settleDraft headers r).2.document = (s.settleDraft headers r).2.document := by
  obtain ⟨buffer, d, q, b, n, policy, expected, started, hs, hd, sc, bs⟩ := s
  obtain ⟨buffer', d', q', b', n', policy', expected', started', hs', hd', sc', bs'⟩ := s'
  simp only [document, PushEmitter.mk.injEq, and_true] at h
  obtain ⟨rfl, rfl, rfl, rfl, rfl, rfl, rfl, rfl, rfl⟩ := h
  rcases r with e | _ | ⟨count, text⟩
  · exact ⟨rfl, rfl⟩
  · exact ⟨rfl, rfl⟩
  · simp only [settleDraft]
    rcases validateFieldCount policy' expected' count with ⟨e | _, expected⟩
    · exact ⟨rfl, rfl⟩
    · cases started' <;> exact ⟨rfl, rfl⟩

/-- **An operation commits its draft or leaves the document alone.** -/
theorem apply_eq (s : PushEmitter) (op : Op) :
    (s.apply F op).1 = (s.settleDraft (s.headersAfter op) (s.draft F op)).1 ∧
      (s.apply F op).2.document =
        (s.settleDraft (s.headersAfter op) (s.draft F op)).2.document := by
  have hrecord : ∀ (s' : PushEmitter) (r : Except EmitError (ℕ × Bytes)),
      s'.document = s.document →
      (apply.committed (s'.settleRecord r)).1 = (s.settleDraft s.serdeHeaders (r.map some)).1 ∧
      (apply.committed (s'.settleRecord r)).2.document =
        (s.settleDraft s.serdeHeaders (r.map some)).2.document := by
    intro s' r h
    have hh : s'.serdeHeaders = s.serdeHeaders := (congrArg PushEmitter.serdeHeaders h :)
    rw [settleDraft_record, hh]; exact settleDraft_document h _ _
  cases op with
  | emitRecord fields =>
    simp only [apply, emitRecord_eq]; exact hrecord s _ rfl
  | emitSlices grants fields =>
    simp only [apply, emitSlices_eq, draft]
    rcases slicesCapacity fields with e | capacity
    · exact ⟨rfl, rfl⟩
    · dsimp only
      split
      · exact ⟨rfl, rfl⟩
      · exact hrecord s _ rfl
  | emitNullableRecord fields =>
    simp only [apply, emitNullable_eq]; exact hrecord s _ rfl
  | emitByteRecord record =>
    simp only [apply, emitByteRecord_eq]; exact hrecord s _ rfl
  | encode value =>
    simp only [apply, encode_eq]; exact hrecord s _ rfl
  | serialize value =>
    simp only [apply, serialize, draft, headersAfter]
    rcases hh : s.serdeHeaders
    case pending =>
      obtain ⟨s', hs', heq⟩ := s.serializeFirstWithHeaders_eq F value
      have hsettle := settleDraft_document hs' .written ((s.draftWithHeaders F value).map some)
      rw [if_pos rfl, heq, ← hsettle.1, ← hsettle.2]
      rcases s.draftWithHeaders F value with e | ⟨count, text⟩
      · exact ⟨rfl, rfl⟩
      · simp only [settleRecord, Except.map, settleDraft]
        rcases validateFieldCount s'.fieldCount s'.expectedFields count with ⟨e | _, expected⟩
        · exact ⟨rfl, rfl⟩
        · unfold commit
          cases hst : s'.started <;> exact ⟨rfl, rfl⟩
    all_goals
      rw [hh] at hrecord
      simp only [serializeDirectRecord_eq, reduceCtorEq, if_false]
      exact hrecord _ _ rfl
  | buildRecord fields =>
    simp only [apply, buildRecord, emitByteRecord_eq, ofFields_fields]
    have h := hrecord { s with builderScratch := .empty }
      (({ s with builderScratch := ByteRecord.empty } : PushEmitter).text F fields) rfl
    exact h
  | dropRecord fields => exact ⟨rfl, rfl⟩

/-! ## Runs -/

/-- **A refused operation leaves the document as it was**, and so does a
    dropped record. -/
theorem apply_refused (s : PushEmitter) (op : Op) (h : s.commits F op = false) :
    (s.apply F op).2.document = s.document := by
  obtain ⟨h1, h2⟩ := s.apply_eq F op
  rw [h2]
  rw [commits, h1] at h
  rcases hd : s.draft F op with e | _ | ⟨count, text⟩
  · rfl
  · rfl
  · rw [hd] at h
    simp only [settleDraft] at h ⊢
    rcases hv : validateFieldCount s.fieldCount s.expectedFields count with ⟨e | _, expected⟩
    · rfl
    · rw [hv] at h; simp at h

/-- Operations do not tell two emitters with the same document apart. -/
theorem apply_document {s s' : PushEmitter} (h : s'.document = s.document) (op : Op) :
    (s'.apply F op).1 = (s.apply F op).1 ∧
      (s'.apply F op).2.document = (s.apply F op).2.document := by
  have hconfig : s'.draft F op = s.draft F op ∧ s'.headersAfter op = s.headersAfter op := by
    obtain ⟨buffer, d, q, b, n, policy, expected, started, hs, hd, sc, bs⟩ := s
    obtain ⟨buffer', d', q', b', n', policy', expected', started', hs', hd', sc', bs'⟩ := s'
    simp only [document, PushEmitter.mk.injEq, and_true] at h
    obtain ⟨rfl, rfl, rfl, rfl, rfl, rfl, rfl, rfl, rfl⟩ := h
    cases op <;> exact ⟨rfl, rfl⟩
  obtain ⟨h1, h2⟩ := s.apply_eq F op
  obtain ⟨h1', h2'⟩ := s'.apply_eq F op
  rw [h1, h2, h1', h2', hconfig.1, hconfig.2]
  exact settleDraft_document h _ _

theorem run_document {s s' : PushEmitter} (h : s'.document = s.document) (ops : List Op) :
    (s'.run F ops).document = (s.run F ops).document := by
  induction ops generalizing s s' with
  | nil => exact h
  | cons op ops ih => exact ih (apply_document F h op).2

/-- **Operations that commit nothing can be left out of a run.** -/
theorem run_committing (s : PushEmitter) (ops : List Op) :
    (s.run F (s.committing F ops)).document = (s.run F ops).document := by
  induction ops generalizing s with
  | nil => rfl
  | cons op ops ih =>
    rw [committing]
    cases h : s.commits F op
    · rw [if_neg (by simp)]
      have hrefused := s.apply_refused F op h
      calc (s.run F ((s.apply F op).2.committing F ops)).document
          = ((s.apply F op).2.run F ((s.apply F op).2.committing F ops)).document :=
            run_document F hrefused.symm _
        _ = ((s.apply F op).2.run F ops).document := ih _
    · rw [if_pos rfl]; exact ih _

/-- The texts of the records a run commits. -/
def records : PushEmitter → List Op → List Bytes
  | _, [] => []
  | s, op :: ops =>
    match s.commits F op, s.draft F op with
    | true, .ok (some (_, text)) => text :: records (s.apply F op).2 ops
    | _, _ => records (s.apply F op).2 ops

/-- The mark and the records of a document. -/
def output (writeBom : WriteBom) (records : List Bytes) : Bytes :=
  if records = [] then [] else (if writeBom = .emit then Coseva.bom else []) ++ records.flatten

/-- A document that is not opened is empty; an opened one is the mark and its
    records. -/
def Opened (s : PushEmitter) (records : List Bytes) : Prop :=
  s.started = !records.isEmpty ∧ s.buffer = output s.bom records

theorem apply_opened {s : PushEmitter} {texts : List Bytes} (h : s.Opened texts) (op : Op) :
    (s.apply F op).2.bom = s.bom ∧ (s.apply F op).2.Opened (texts ++ (s.records F [op])) := by
  obtain ⟨h1, h2⟩ := s.apply_eq F op
  have hdoc : ∀ {a b : PushEmitter}, a.document = b.document →
      a.bom = b.bom ∧ a.started = b.started ∧ a.buffer = b.buffer := by
    intro a b hab
    exact ⟨(congrArg PushEmitter.bom hab :), (congrArg PushEmitter.started hab :),
      (congrArg PushEmitter.buffer hab :)⟩
  obtain ⟨hb, hs, hbuf⟩ := hdoc h2
  cases hc : s.commits F op
  · obtain ⟨hb', hs', hbuf'⟩ := hdoc (s.apply_refused F op hc)
    refine ⟨hb', ?_, ?_⟩
    · simp [hs', h.1, records, hc]
    · simp [hbuf', h.2, hb', records, hc]
  · rw [Opened, hb, hs, hbuf]
    have hcommits := hc
    rw [commits, h1] at hcommits
    rcases hd : s.draft F op with e | _ | ⟨count, text⟩
    · rw [hd] at hcommits; simp [settleDraft] at hcommits
    · rw [hd] at hcommits; simp [settleDraft] at hcommits
    · have hrec : s.records F [op] = [text] := by simp [records, hc, hd]
      rw [hd] at hcommits
      rw [hrec]
      simp only [settleDraft] at hcommits ⊢
      rcases hv : validateFieldCount s.fieldCount s.expectedFields count with ⟨e | _, expected⟩
      · rw [hv] at hcommits; simp at hcommits
      · obtain ⟨hst, hbuf⟩ := h
        cases texts with
        | nil =>
          have hst : s.started = false := hst
          have hnil : s.buffer = [] := hbuf
          simp only [commit, hst, hnil, output]
          cases s.bom <;> simp
        | cons t texts =>
          have hst : s.started = true := hst
          simp only [commit, hst, hbuf, output]
          simp

theorem run_opened {s : PushEmitter} {texts : List Bytes} (h : s.Opened texts) (ops : List Op) :
    (s.run F ops).bom = s.bom ∧ (s.run F ops).Opened (texts ++ s.records F ops) := by
  induction ops generalizing s texts with
  | nil => simpa [records, run] using h
  | cons op ops ih =>
    obtain ⟨hb, ho⟩ := apply_opened F h op
    have hrec : s.records F (op :: ops) = s.records F [op] ++ (s.apply F op).2.records F ops := by
      simp only [records]
      split <;> simp
    obtain ⟨hb', ho'⟩ := ih ho
    rw [hrec, ← List.append_assoc]
    exact ⟨hb'.trans hb, ho'⟩

/-- **The mark opens the document once**: the output of a run on a new emitter
    is the records it commits, behind one mark if any. -/
theorem run_bom (o : FormatSettings) (valid : o.Valid) (fieldCount : FieldCount)
    (hasHeaders : Bool) (ops : List Op) :
    ((new o valid fieldCount hasHeaders).run F ops).buffer =
      output o.writeBom ((new o valid fieldCount hasHeaders).records F ops) := by
  have hnew : (new o valid fieldCount hasHeaders).Opened [] := ⟨rfl, rfl⟩
  obtain ⟨hb, _, hbuf⟩ := run_opened F hnew ops
  rw [hb] at hbuf
  exact hbuf

/-- **Emitter errors are atomic over whole runs.**  After any run of a new
    emitter on a valid format, an operation that is refused or dropped leaves
    the output, the latched field count, the opening flag and the header state
    as they were; the run ends in the same document as its committing
    operations alone; and its output is the records it commits behind one mark,
    or nothing. -/
theorem run_atomic (o : FormatSettings) (valid : o.Valid) (fieldCount : FieldCount)
    (hasHeaders : Bool) (ops : List Op) :
    let s := new o valid fieldCount hasHeaders
    (∀ op, (s.run F ops).commits F op = false →
      ((s.run F ops).apply F op).2.document = (s.run F ops).document) ∧
    (s.run F (s.committing F ops)).document = (s.run F ops).document ∧
    (s.run F (s.committing F ops)).buffer = (s.run F ops).buffer ∧
    (s.run F ops).buffer = output o.writeBom (s.records F ops) := by
  intro s
  have hdoc := s.run_committing F ops
  exact ⟨fun op => (s.run F ops).apply_refused F op, hdoc, (congrArg PushEmitter.buffer hdoc :),
    run_bom F o valid fieldCount hasHeaders ops⟩

/-- Under `Quoting::Never` with a mark: a record with a comma is refused, a
    pending one is dropped, and the mark precedes the one record committed. -/
theorem run_atomic_never :
    let o : FormatSettings := { dialect := .csv, quoting := .never, writeBom := .emit }
    let s := new o (by decide) .matchFirst true
    ((s.run none [.emitRecord [[44]], .emitRecord [[97], [98]]]).apply none
      (.emitRecord [[97]])).2.document =
      (s.run none [.emitRecord [[44]], .emitRecord [[97], [98]]]).document :=
  (run_atomic none { dialect := .csv, quoting := .never, writeBom := .emit } (by decide)
    .matchFirst true [.emitRecord [[44]], .emitRecord [[97], [98]]]).1 _ (by decide)

end PushEmitter

end Coseva
