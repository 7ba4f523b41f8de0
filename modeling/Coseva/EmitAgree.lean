/-
  Coseva — the entry points of the push emitter write the same bytes.

  The default-dialect writer, the configured writer, the NULL-aware writer and
  the push-driven visitor each make the quoting decision, frame the fields and
  mend a lone empty field for themselves; all of them write `recordText`.

  * `visited_ofFields`: the visitor drafts the text of the fields it visits;
  * `text_spelling`: a compile-time format drafts the text of the same format
    at run time;
  * `entry_points_agree`: in every state of every run, all entry points commit
    the same record or refuse it with the same error.
-/
import Coseva.EmitRun

namespace Coseva

open Append Append.M

variable {F : CsvFormat}

/-! ## The visitor writes the text of its fields -/

namespace Visitor

/-- The visitor has the configuration of its compile-time format. -/
def Follows (F : CsvFormat) (v : Visitor) : Prop :=
  isCsv F = true → v.dialect = .csv ∧ v.quoting = .necessary ∧ v.nulls = .none

/-- The delimiter and the text of the next field. -/
def nextText (v : Visitor) (field : Option Bytes) : Except EmitError Bytes :=
  (fieldText v.dialect v.quoting v.nulls field (v.fieldCount == 0)).map
    ((if v.fieldCount = 0 then [] else v.dialect.delimiterText) ++ ·)

/-- The visitor after a field. -/
def counted (v : Visitor) : Option Bytes → Visitor
  | some field => v.count field
  | none => v.countNull

/-- The visitor with `text` appended to its output. -/
def wrote (v : Visitor) (text : Bytes) : Visitor := { v with output := v.output ++ text }

section
variable (v : Visitor) (field : Option Bytes) (text : Bytes)

@[simp] theorem counted_dialect : (v.counted field).dialect = v.dialect := by cases field <;> rfl
@[simp] theorem counted_quoting : (v.counted field).quoting = v.quoting := by cases field <;> rfl
@[simp] theorem counted_nulls : (v.counted field).nulls = v.nulls := by cases field <;> rfl
@[simp] theorem counted_recordStart : (v.counted field).recordStart = v.recordStart := by
  cases field <;> rfl
@[simp] theorem counted_output : (v.counted field).output = v.output := by cases field <;> rfl
@[simp] theorem counted_fieldCount : (v.counted field).fieldCount = v.fieldCount + 1 := by
  cases field <;> rfl
@[simp] theorem wrote_dialect : (v.wrote text).dialect = v.dialect := rfl
@[simp] theorem wrote_quoting : (v.wrote text).quoting = v.quoting := rfl
@[simp] theorem wrote_nulls : (v.wrote text).nulls = v.nulls := rfl
@[simp] theorem wrote_recordStart : (v.wrote text).recordStart = v.recordStart := rfl
@[simp] theorem wrote_output : (v.wrote text).output = v.output ++ text := rfl
@[simp] theorem wrote_fieldCount : (v.wrote text).fieldCount = v.fieldCount := rfl

theorem counted_wrote : (v.wrote text).counted field = (v.counted field).wrote text := by
  cases field <;> rfl

theorem wrote_wrote (text' : Bytes) : (v.wrote text).wrote text' = v.wrote (text ++ text') := by
  simp [wrote]

theorem wrote_nil : v.wrote [] = v := by simp [wrote]

end

/-- The counters after several fields. -/
def countAll (v : Visitor) (fields : List (Option Bytes)) : Visitor := fields.foldl counted v

theorem countAll_wrote (v : Visitor) (fields : List (Option Bytes)) (text : Bytes) :
    (v.wrote text).countAll fields = (v.countAll fields).wrote text := by
  induction fields generalizing v with
  | nil => rfl
  | cons field fields ih => rw [countAll, List.foldl_cons, counted_wrote]; exact ih _

/-- Visit a field or a NULL. -/
def visit (F : CsvFormat) (v : Visitor) : Option Bytes → Except EmitError Unit × Visitor
  | some field => v.writeField F field
  | none => v.writeNullField

theorem delimited_writes (v : Visitor) {m : Emit Unit} {text : Except EmitError Bytes}
    (hm : WritesText m text) :
    WritesText (do onlyIf (v.fieldCount ≠ 0) (writeDelimiter v.dialect); m)
      (text.map ((if v.fieldCount = 0 then [] else v.dialect.delimiterText) ++ ·)) := by
  refine (Writes.bind (r := .ok ((), if v.fieldCount ≠ 0 then v.dialect.delimiterText else []))
    (appends_onlyIf (writeDelimiter_appends _)) fun _ => hm).congr ?_
  cases text with
  | error e => rfl
  | ok text => by_cases h : v.fieldCount = 0 <;> simp [andThen, Except.map, h]

theorem run_writes {m : Emit Unit} {text : Except EmitError Bytes} (hm : WritesText m text)
    (v : Visitor) :
    (v.run m).1 = text.map (fun _ => ()) ∧
      ∀ t, text = .ok t → (v.run m).2 = v.wrote t := by
  cases text with
  | error e => obtain ⟨bs, h⟩ := hm; simp [run, h v.output, Except.map]
  | ok text =>
    have h : Appends m (.ok ()) text := hm
    refine ⟨by simp [run, h v.output, Except.map], fun t ht => ?_⟩
    obtain rfl := Except.ok.inj ht
    simp [run, h v.output, wrote]

/-- The writer of a field, whichever path it takes. -/
theorem writeField_run (v : Visitor) (hv : v.Follows F) (field : Bytes) :
    ∃ m : Emit Unit, v.writeField F field = (v.count field).run m ∧
      WritesText m (v.nextText (some field)) := by
  have hfirst : (v.fieldCount + 1 == 1) = (v.fieldCount == 0) := by
    rw [Bool.eq_iff_iff]; simp
  unfold writeField
  rw [hfirst]
  split
  · rename_i hc
    obtain ⟨hd, hq, hn⟩ := hv hc
    refine ⟨_, rfl, ?_⟩
    have hpush : (push 44 : Emit Unit) = writeDelimiter v.dialect := by
      rw [hd]; exact (appends_push 44).ext (writeDelimiter_appends .csv)
    have hplain : v.dialect.escape.escapesUnquoted = false := by rw [hd]; rfl
    rw [hpush, nextText, fieldText, hn, presentText_plain hplain, hq, hd, writeCsvNecessary_eq]
    have h := v.delimited_writes (writeNecessary_writes .csv field (v.fieldCount == 0))
    rw [hd] at h; exact h
  · refine ⟨_, rfl, v.delimited_writes ?_⟩
    split
    · rename_i h
      rw [fieldText, h.1, presentText_plain h.2]
      exact writePlain_writes _ _ _ _
    · exact writeConfiguredField_writes _ _ _ _ _

theorem visit_eq (v : Visitor) (hv : v.Follows F) (field : Option Bytes) :
    (v.visit F field).1 = (v.nextText field).map (fun _ => ()) ∧
      ∀ t, v.nextText field = .ok t →
        (v.visit F field).2 = (v.counted field).wrote t := by
  cases field with
  | none => exact run_writes (v.delimited_writes (writeAbsent_writes _ _ _)) v.countNull
  | some field =>
    obtain ⟨m, hm, hw⟩ := v.writeField_run hv field
    rw [visit, hm]
    exact run_writes hw (v.count field)

end Visitor

theorem ofFields_cons (field : Option Bytes) (fields : List (Option Bytes)) (v : Visitor) :
    (Encoding.ofFields (field :: fields)).run F v =
      match v.visit F field with
      | (.ok (), v') => (Encoding.ofFields fields).run F v'
      | (.error e, v') => (.error e, v') := by
  cases field with
  | none =>
    rw [Encoding.ofFields, Encoding.run, Visitor.visit]
    rcases v.writeNullField with ⟨e | _, v'⟩ <;> rfl
  | some field =>
    rw [Encoding.ofFields, Encoding.run, Visitor.visit]
    rcases v.writeField F field with ⟨e | _, v'⟩ <;> rfl

/-- The visitor after fields whose text is `text`: the verdict, the counters
    and the output. -/
def Visited (F : CsvFormat) (v : Visitor) (fields : List (Option Bytes))
    (text : Except EmitError Bytes) : Prop :=
  ((Encoding.ofFields fields).run F v).1 = text.map (fun _ => ()) ∧
    ∀ t, text = .ok t → ((Encoding.ofFields fields).run F v).2 = (v.countAll fields).wrote t

theorem visited_nil (v : Visitor) : Visited F v [] (.ok []) := by
  refine ⟨rfl, fun t ht => ?_⟩
  obtain rfl := Except.ok.inj ht
  rw [Visitor.wrote_nil]; rfl

theorem visited_cons {v : Visitor} (hv : v.Follows F) {field : Option Bytes}
    {fields : List (Option Bytes)} {m : Except EmitError Bytes}
    (hrest : ∀ t, Visited F ((v.counted field).wrote t) fields m) :
    Visited F v (field :: fields) (do
      let text ← v.nextText field
      let rest ← m
      .ok (text ++ rest)) := by
  obtain ⟨h1, h2⟩ := v.visit_eq hv field
  rw [Visited, ofFields_cons]
  rcases hvis : v.visit F field with ⟨r, v'⟩
  rw [hvis] at h1 h2
  rcases ht : v.nextText field with e | text
  · rw [ht] at h1
    obtain rfl : r = .error e := h1
    exact ⟨rfl, fun t h => by cases h⟩
  · rw [ht] at h1
    obtain rfl : r = .ok () := h1
    obtain rfl : v' = (v.counted field).wrote text := h2 text ht
    obtain ⟨hr1, hr2⟩ := hrest text
    rcases m with e | rest
    · exact ⟨hr1, fun t h => by cases h⟩
    · refine ⟨hr1, fun t h => ?_⟩
      obtain rfl := Except.ok.inj h
      refine (hr2 rest rfl).trans ?_
      rw [Visitor.countAll_wrote, Visitor.wrote_wrote]; rfl

theorem follows_wrote {v : Visitor} (hv : v.Follows F) (field : Option Bytes) (text : Bytes) :
    ((v.counted field).wrote text).Follows F := by
  intro hc; simpa using hv hc

/-- Behind the first field, a visitor appends the rest of the record. -/
theorem visited_rest (fields : List (Option Bytes)) : ∀ (v : Visitor), v.Follows F →
    v.fieldCount ≠ 0 → Visited F v fields (restText v.dialect v.quoting v.nulls fields) := by
  induction fields with
  | nil => intro v _ _; exact visited_nil v
  | cons field fields ih =>
    intro v hv hc
    have hnext : v.nextText field =
        (fieldText v.dialect v.quoting v.nulls field false).map (v.dialect.delimiterText ++ ·) := by
      rw [Visitor.nextText, if_neg hc, beq_eq_false_iff_ne.mpr hc]
    have hcons := visited_cons hv (m := restText v.dialect v.quoting v.nulls fields)
      fun t => by simpa using ih ((v.counted field).wrote t) (follows_wrote hv field t) (by simp)
    rw [hnext] at hcons
    rw [restText]
    generalize fieldText v.dialect v.quoting v.nulls field false = text at hcons ⊢
    cases text <;> exact hcons

/-- From the first field on, a visitor appends the fields of the record. -/
theorem visited_fields (fields : List (Option Bytes)) (v : Visitor) (hv : v.Follows F)
    (hc : v.fieldCount = 0) :
    Visited F v fields (fieldsText v.dialect v.quoting v.nulls fields) := by
  cases fields with
  | nil => exact visited_nil v
  | cons field fields =>
    have hnext : v.nextText field = fieldText v.dialect v.quoting v.nulls field true := by
      rw [Visitor.nextText, if_pos hc, hc, beq_self_eq_true]
      cases fieldText v.dialect v.quoting v.nulls field true <;> rfl
    have hcons := visited_cons hv (m := restText v.dialect v.quoting v.nulls fields)
      fun t => by
        simpa using visited_rest fields ((v.counted field).wrote t) (follows_wrote hv field t)
          (by simp)
    rw [hnext] at hcons
    exact hcons

theorem finish_appends (v : Visitor) :
    v.finish = (.ok v.fieldCount, v.output ++
      ((if v.fieldCount = 1 ∧ v.onlyFieldWasNonNullEmpty ∧ v.quoting = .necessary
          ∧ v.output.length = v.recordStart then [v.dialect.quote, v.dialect.quote] else []) ++
        v.dialect.endingText)) := by
  have h : Appends (do
      onlyIf (v.fieldCount = 1 ∧ v.onlyFieldWasNonNullEmpty ∧ v.quoting = .necessary
          ∧ v.output.length = v.recordStart)
        (extend [v.dialect.quote, v.dialect.quote])
      finishRecord v.dialect
      pure v.fieldCount : Emit ℕ) (.ok v.fieldCount) _ :=
    (appends_onlyIf (appends_extend _)).bind_ok
      ((finishRecord_appends v.dialect).bind_ok (appends_pure v.fieldCount))
  rw [List.append_nil] at h
  exact h v.output

theorem countAll_fieldCount (v : Visitor) (fields : List (Option Bytes)) :
    (v.countAll fields).fieldCount = v.fieldCount + fields.length ∧
      (v.countAll fields).dialect = v.dialect ∧ (v.countAll fields).quoting = v.quoting ∧
      (v.countAll fields).recordStart = v.recordStart ∧
      (v.countAll fields).output = v.output := by
  induction fields generalizing v with
  | nil => exact ⟨rfl, rfl, rfl, rfl, rfl⟩
  | cons field fields ih =>
    obtain ⟨h1, h2, h3, h4, h5⟩ := ih (v.counted field)
    rw [Visitor.countAll, List.foldl_cons]
    refine ⟨h1.trans ?_, h2.trans (by simp), h3.trans (by simp), h4.trans (by simp),
      h5.trans (by simp)⟩
    simp [Nat.add_comm, Nat.add_left_comm]

theorem new_follows (F : CsvFormat) (output : Bytes) (d : Dialect) (quoting : Quoting)
    (nulls : Nulls) : (Visitor.new F output d quoting nulls).Follows F := by
  intro hc
  cases F with
  | none => cases hc
  | some o =>
    simp only [Visitor.isCsv, Option.any_some, decide_eq_true_eq] at hc
    exact hc

/-- The flag of a lone field is what the record's text looks at. -/
theorem countAll_loneEmpty (v : Visitor) (fields : List (Option Bytes)) (hc : v.fieldCount = 0)
    (hf : v.onlyFieldWasNonNullEmpty = false) :
    (fields.length = 1 ∧ (v.countAll fields).onlyFieldWasNonNullEmpty = true) ↔
      loneEmpty v.nulls fields = true := by
  match fields with
  | [] => simp [loneEmpty]
  | [none] => simp [loneEmpty, Visitor.countAll, Visitor.counted, Visitor.countNull, hf]
  | [some field] => simp [loneEmpty, Visitor.countAll, Visitor.counted, Visitor.count, hc]
  | _ :: _ :: _ => simp [loneEmpty]

theorem finish_visited {v : Visitor} (hv : v.Follows F) (hc : v.fieldCount = 0)
    (hf : v.onlyFieldWasNonNullEmpty = false) (ho : v.output = []) (hs : v.recordStart = 0)
    (fields : List (Option Bytes)) :
    PushEmitter.drafted (match (Encoding.ofFields fields).run F v with
      | (.error e, v') => (.error e, v'.output)
      | (.ok (), v') => v'.finish) =
      counted fields.length (recordText v.dialect v.quoting v.nulls fields) := by
  obtain ⟨h1, h2⟩ := visited_fields fields v hv hc
  have hlone := countAll_loneEmpty v fields hc hf
  obtain ⟨hn, hd, hq, hs', ho'⟩ := countAll_fieldCount v fields
  rcases hr : (Encoding.ofFields fields).run F v with ⟨r, v'⟩
  rw [hr] at h1 h2
  rw [recordText]
  rcases ht : fieldsText v.dialect v.quoting v.nulls fields with e | text
  · rw [ht] at h1
    obtain rfl : r = .error e := h1
    rfl
  · rw [ht] at h1
    obtain rfl : r = .ok () := h1
    obtain rfl : v' = (v.countAll fields).wrote text := h2 text ht
    have hfix : (fields.length = 1 ∧ ((v.countAll fields).wrote text).onlyFieldWasNonNullEmpty ∧
          v.quoting = .necessary ∧ text.length = 0) ↔
        (loneEmpty v.nulls fields = true ∧ text.isEmpty = true ∧ v.quoting = .necessary) := by
      rw [← hlone, List.isEmpty_iff, List.length_eq_zero_iff]
      constructor
      · rintro ⟨a, b, c, d⟩
        exact ⟨⟨a, b⟩, d, c⟩
      · rintro ⟨⟨a, b⟩, d, c⟩
        exact ⟨a, b, c, d⟩
    simp only [finish_appends, Visitor.wrote_fieldCount, Visitor.wrote_output,
      Visitor.wrote_quoting, Visitor.wrote_dialect, Visitor.wrote_recordStart, hn, hd, hq, hs', ho',
      hc, ho, hs, Nat.zero_add, List.nil_append]
    rw [if_congr hfix rfl rfl]
    simp only [PushEmitter.drafted, counted, Except.map, bind, Except.bind, fixupText]
    split_ifs with h
    · simp [List.isEmpty_iff.mp h.2.1]
    · simp

/-- **A visitor drafts the text of the fields it visits.** -/
theorem visited_ofFields (F : CsvFormat) (s : PushEmitter) (fields : List (Option Bytes)) :
    PushEmitter.drafted (s.visited F (.ofFields fields) []) = s.text F fields :=
  finish_visited (new_follows F [] s.dialect s.quoting s.nulls) rfl rfl rfl rfl fields

/-! ## Static formats -/

namespace PushEmitter

/-- The emitter is configured by the format `o`. -/
def Configured (o : FormatSettings) (s : PushEmitter) : Prop :=
  s.dialect = o.dialect ∧ s.quoting = o.quoting ∧ s.nulls = o.nulls ∧ s.bom = o.writeBom

theorem commit_configured {o : FormatSettings} {s : PushEmitter} (h : s.Configured o) :
    s.commit.Configured o := by
  unfold commit; split <;> exact h

theorem apply_configured {o : FormatSettings} {s : PushEmitter} (h : s.Configured o) (op : Op) :
    (s.apply F op).2.Configured o := by
  obtain ⟨-, h2⟩ := s.apply_eq F op
  have hsettle : (s.settleDraft (s.headersAfter op) (s.draft F op)).2.Configured o := by
    rcases s.draft F op with e | _ | ⟨count, text⟩
    · exact h
    · exact h
    · simp only [settleDraft]
      rcases validateFieldCount s.fieldCount s.expectedFields count with ⟨e | _, expected⟩
      · exact h
      · exact commit_configured h
  exact ⟨(congrArg PushEmitter.dialect h2 :).trans hsettle.1,
    (congrArg PushEmitter.quoting h2 :).trans hsettle.2.1,
    (congrArg PushEmitter.nulls h2 :).trans hsettle.2.2.1,
    (congrArg PushEmitter.bom h2 :).trans hsettle.2.2.2⟩

theorem run_configured {o : FormatSettings} {s : PushEmitter} (h : s.Configured o)
    (ops : List Op) : (s.run F ops).Configured o := by
  induction ops generalizing s with
  | nil => exact h
  | cons op ops ih => exact ih (apply_configured h op)

/-- The static or the dynamic spelling of a format. -/
def spelling (o : FormatOptions) (isStatic : Bool) : CsvFormat :=
  if isStatic then some o else none

/-- A format spelled at compile time drafts the text it drafts at run time. -/
theorem text_spelling {o : FormatOptions} {s : PushEmitter} (h : s.Configured o.toFormatSettings)
    (isStatic : Bool) (fields : List (Option Bytes)) :
    s.text (spelling o isStatic) fields = s.text none fields := by
  obtain ⟨hd, hq, hn, -⟩ := h
  cases isStatic
  · rfl
  · simp only [text, spelling, if_true, CsvFormat.dialect, CsvFormat.quoting, CsvFormat.nulls,
      hd, hq, hn]

/-! ## The entry points agree -/

/-- The allocator grants what `emit_slices` reserves for these fields, and
    grants no more than an allocation can hold. -/
structure Grants (grants : ℕ → Bool) (buffer : Bytes) (fields : List Bytes) : Prop where
  isize : ∀ size, grants size = true → size ≤ isizeMax
  granted : grants (buffer.length + (2 * fields.flatten.length + 3 * fields.length + 2)) = true

theorem foldlM_checkedAdd (fields : List Bytes) :
    ∀ n, n + fields.flatten.length ≤ usizeMax →
      fields.foldlM (fun bytes field => checkedAdd bytes field.length) n =
        .ok (n + fields.flatten.length) := by
  induction fields with
  | nil => intro n _; rfl
  | cons field fields ih =>
    intro n h
    rw [List.flatten_cons, List.length_append] at h ⊢
    rw [List.foldlM_cons, checkedAdd, if_pos (by omega)]
    exact (ih (n + field.length) (by omega)).trans (by rw [Nat.add_assoc])

/-- What the allocator grants is what `emit_slices` computes. -/
theorem Grants.slicesCapacity {grants : ℕ → Bool} {buffer : Bytes} {fields : List Bytes}
    (h : Grants grants buffer fields) :
    slicesCapacity fields = .ok (2 * fields.flatten.length + 3 * fields.length + 2) := by
  have hle := h.isize _ h.granted
  have hmax : isizeMax ≤ usizeMax := by decide
  have hfold := foldlM_checkedAdd fields 0 (by omega)
  rw [Nat.zero_add] at hfold
  have h1 : checkedMul fields.length 3 = .ok (fields.length * 3) := if_pos (by omega)
  have h2 : checkedMul fields.flatten.length 2 = .ok (fields.flatten.length * 2) :=
    if_pos (by omega)
  have h3 : checkedAdd (fields.flatten.length * 2) (fields.length * 3) = .ok _ :=
    if_pos (by omega)
  have h4 : checkedAdd (fields.flatten.length * 2 + fields.length * 3) 2 = .ok _ :=
    if_pos (by omega)
  rw [Coseva.slicesCapacity, h1, hfold]
  show (checkedMul fields.flatten.length 2 >>= fun doubled =>
    checkedAdd doubled (fields.length * 3) >>= fun capacity => checkedAdd capacity 2) = _
  rw [h2]
  show (checkedAdd (fields.flatten.length * 2) (fields.length * 3) >>= fun capacity =>
    checkedAdd capacity 2) = _
  rw [h3]
  show checkedAdd (fields.flatten.length * 2 + fields.length * 3) 2 = _
  rw [h4, Nat.mul_comm, Nat.mul_comm fields.length]

/-- **All entry points write the same record.**  In any state a run on a valid
    format reaches, under the format's dynamic or static spelling, they end
    with the same verdict and the same emitter as `emit_record` does under the
    dynamic one (a builder up to the scratch it gives back). -/
theorem entry_points_agree (o : FormatOptions) (valid : o.Valid) (fieldCount : FieldCount)
    (hasHeaders isStatic : Bool) (ops : List Op) (fields : List Bytes) (grants : ℕ → Bool)
    (hgrants : Grants grants
      ((new o.toFormatSettings valid fieldCount hasHeaders).run (spelling o isStatic) ops).buffer
      fields) :
    let s := (new o.toFormatSettings valid fieldCount hasHeaders).run (spelling o isStatic) ops
    let F := spelling o isStatic
    let expected := s.emitRecord none fields
    s.emitRecord F fields = expected ∧
    s.emitSlices grants fields = expected ∧
    s.emitNullable F (fields.map some) = expected ∧
    s.encode F (.ofFields (fields.map some)) = expected ∧
    (∀ record : ByteRecord, record.fields = fields.map some →
      s.emitByteRecord F record = expected) ∧
    (s.buildRecord F (fields.map some)).1 = expected.1 ∧
    (s.buildRecord F (fields.map some)).2.document = expected.2.document := by
  intro s F expected
  have hconf : s.Configured o.toFormatSettings := run_configured ⟨rfl, rfl, rfl, rfl⟩ ops
  have htext := text_spelling hconf isStatic (fields.map some)
  have hexpected : expected = s.settleRecord (s.text none (fields.map some)) :=
    s.emitRecord_eq none fields
  refine ⟨?_, ?_, ?_, ?_, ?_, ?_⟩
  · rw [emitRecord_eq, htext, hexpected]
  · rw [emitSlices_eq, hgrants.slicesCapacity, hexpected]
    dsimp only
    rw [hgrants.granted, if_neg (by simp)]
  · rw [emitNullable_eq, htext, hexpected]
  · rw [encode_eq, visited_ofFields, htext, hexpected]
  · intro record hrecord
    rw [emitByteRecord_eq, hrecord, htext, hexpected]
  · have hbuild := s.apply_eq F (.buildRecord (fields.map some))
    have hrecord := s.apply_eq none (.emitRecord fields)
    simp only [draft, headersAfter] at hbuild hrecord
    rw [htext, ← hrecord.1, ← hrecord.2] at hbuild
    refine ⟨?_, hbuild.2⟩
    have h := hbuild.1
    simp only [apply, apply.committed] at h
    rcases h1 : (s.buildRecord F (fields.map some)).1 with e | _ <;>
      rcases h2 : (s.emitRecord none fields).1 with e' | _ <;>
      rw [h1, h2] at h <;> simp_all [Except.map, expected]

/-- Both spellings of the default format, after a refused and a committed
    record, on fields with a comma, a quote and nothing. -/
theorem entry_points_agree_csv :
    let s := (new FormatOptions.csv.toFormatSettings (by decide) .flexible true).run none
      [.emitRecord [[97]], .dropRecord [none]]
    let fields : List Bytes := [[97, 44], [34], []]
    s.emitSlices (fun size => size ≤ 1000) fields = s.emitRecord none fields :=
  (entry_points_agree .csv (by decide) .flexible true false
    [.emitRecord [[97]], .dropRecord [none]] [[97, 44], [34], []] (fun size => size ≤ 1000)
    ⟨fun size h => by simp only [decide_eq_true_eq] at h; unfold isizeMax; omega, by decide⟩).2.1

end PushEmitter

end Coseva
