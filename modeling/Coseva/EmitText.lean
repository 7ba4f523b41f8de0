/-
  Coseva — the text of a record: what the writers of `emit.rs` put out, as
  functions from fields to bytes.

  * `quotedText`, `escapedText`, `fieldText`: the text of one field, or the
    error it is refused with;
  * `recordText`: the text of a record with its ending;
  * `emitRecordRuntime_writes`, `emitNullableRecordRuntime_writes`: the record
    writers write exactly that text.
-/
import Coseva.Emit

namespace Coseva

open Append Append.M

variable {d : Dialect} {quoting : Quoting} {nulls : Nulls}

/-! ## The text of a field -/

/-- The bytes a quoted field escapes. -/
def quotedSpecial (d : Dialect) (byte : UInt8) : Bool :=
  match d.escape with
  | .doubleQuote => byte == d.quote
  | .backslash escape => byte == d.quote || byte == escape
  | .mysql | .unquoted _ => false

/-- What stands for an escaped byte of a quoted field. -/
def quotedEscape (d : Dialect) (byte : UInt8) : Bytes :=
  match d.escape with
  | .doubleQuote => [d.quote, d.quote]
  | .backslash escape => [escape, byte]
  | .mysql | .unquoted _ => []

/-- A field between quotes. -/
def quotedText (d : Dialect) (field : Bytes) : Except EmitError Bytes :=
  if d.escape.escapesUnquoted then
    .error (.panic "unquoted-escape dialects are written by write_unquoted_escaped_field")
  else .ok (d.quote :: substAll (quotedSpecial d) (quotedEscape d) field ++ [d.quote])

/-- The bytes of a field with each structural byte escaped. -/
def escapeAll (d : Dialect) (escape : UInt8) (field : Bytes) : Bytes :=
  field.flatMap fun byte =>
    match escapedByte d escape byte with
    | some escaped => [escape, escaped]
    | none => [byte]

/-- A field of a dialect that escapes rather than quotes. -/
def escapedText (d : Dialect) (escape : UInt8) (field : Bytes) (isFirst : Bool) : Bytes :=
  if isFirst && d.leads field then
    escape :: field.take 1 ++ escapeAll d escape (field.drop 1)
  else escapeAll d escape field

/-- A field that is quoted, or else bare. -/
def bareText (d : Dialect) (quote : Bool) (field : Bytes) : Except EmitError Bytes :=
  if quote then quotedText d field else .ok field

/-- The text of a present field under a quoting mode alone. -/
def plainText (d : Dialect) (quoting : Quoting) (field : Bytes) (isFirst : Bool) :
    Except EmitError Bytes :=
  match quoting with
  | .necessary => bareText d (needsQuotes d field isFirst) field
  | .nonNumeric => bareText d (needsQuotes d field isFirst || !isNumeric field) field
  | .always => quotedText d field
  | .never =>
    if needsQuotes d field isFirst then .error (.encode "field requires quoting") else .ok field
  | .raw => .ok field

/-- The text of a present field. -/
def presentText (d : Dialect) (quoting : Quoting) (nulls : Nulls) (field : Bytes)
    (isFirst : Bool) : Except EmitError Bytes :=
  match d.escape.unquotedByte with
  | some escape =>
    if nulls = .mysql ∧ field = [92, 78] then .ok [escape, 92, 78]
    else .ok (escapedText d escape field isFirst)
  | none =>
    if nulls = .postgresCsv ∧ field = [] then quotedText d field
    else if nulls = .mysql ∧ field = [92, 78] then
      match quoting with
      | .necessary | .nonNumeric | .always => quotedText d field
      | .never | .raw =>
        .error (.encode "a non-NULL MySQL \\N field requires quoting or unquoted escaping")
    else plainText d quoting field isFirst

/-- The text of an absent field. -/
def absentText (d : Dialect) (quoting : Quoting) (nulls : Nulls) : Except EmitError Bytes :=
  match nulls with
  | .none => bareText d (quoting == .nonNumeric || quoting == .always) []
  | .mysql => .ok [92, 78]
  | .postgresCsv => .ok []

/-- The text of a field. -/
def fieldText (d : Dialect) (quoting : Quoting) (nulls : Nulls) (field : Option Bytes)
    (isFirst : Bool) : Except EmitError Bytes :=
  match field with
  | some field => presentText d quoting nulls field isFirst
  | none => absentText d quoting nulls

/-! ## The text of a record -/

/-- The whole delimiter. -/
def Dialect.delimiterText (d : Dialect) : Bytes := d.delimiter :: d.delimiterTail.asSlice

/-- The whole record ending. -/
def Dialect.endingText (d : Dialect) : Bytes :=
  (if d.recordEnding = .crLf then [13] else []) ++ d.recordEnding.byte :: d.endingTail.asSlice

/-- The texts of fields, each behind a delimiter. -/
def restText (d : Dialect) (quoting : Quoting) (nulls : Nulls) :
    List (Option Bytes) → Except EmitError Bytes
  | [] => .ok []
  | field :: fields => do
    let text ← fieldText d quoting nulls field false
    let rest ← restText d quoting nulls fields
    .ok (d.delimiterText ++ text ++ rest)

/-- The texts of the fields of a record. -/
def fieldsText (d : Dialect) (quoting : Quoting) (nulls : Nulls) :
    List (Option Bytes) → Except EmitError Bytes
  | [] => .ok []
  | field :: fields => do
    let text ← fieldText d quoting nulls field true
    let rest ← restText d quoting nulls fields
    .ok (text ++ rest)

/-- The record is a lone field that is empty and not NULL. -/
def loneEmpty (nulls : Nulls) : List (Option Bytes) → Bool
  | [some field] => field.isEmpty
  | [none] => nulls == .none
  | _ => false

/-- A lone empty field is quoted, so that it does not read as a blank line. -/
def fixupText (d : Dialect) (quoting : Quoting) (lone : Bool) (text : Bytes) : Bytes :=
  if lone ∧ text.isEmpty ∧ quoting = .necessary then [d.quote, d.quote] else text

/-- **The text of a record**, or the error it is refused with. -/
def recordText (d : Dialect) (quoting : Quoting) (nulls : Nulls) (fields : List (Option Bytes)) :
    Except EmitError Bytes := do
  let text ← fieldsText d quoting nulls fields
  .ok (fixupText d quoting (loneEmpty nulls fields) text ++ d.endingText)

/-! ## The writers of one field write its text -/

/-- A writer of the text `r`. -/
abbrev WritesText (m : Emit Unit) (r : Except EmitError Bytes) : Prop :=
  Writes m (r.map fun text => ((), text))

theorem nextDoubledQuote_eq (d : Dialect) (remaining : Bytes) :
    nextDoubledQuote d remaining = remaining.findIdx? (· == d.quote) := by
  unfold nextDoubledQuote find1
  split
  · rename_i h
    cases remaining with
    | nil => simp at h
    | cons b bs =>
      simp only [List.head?_cons, beq_iff_eq, Option.some.injEq] at h
      rw [List.findIdx?_cons, h, beq_self_eq_true]; rfl
  · rfl

theorem nextBackslashEscape_eq (d : Dialect) (escape : UInt8) (remaining : Bytes) :
    nextBackslashEscape d escape remaining =
      remaining.findIdx? fun byte => byte == d.quote || byte == escape := by
  unfold nextBackslashEscape find2
  split
  · rename_i h
    cases remaining with
    | nil => simp at h
    | cons b bs =>
      simp only [List.head?_cons, Option.any_some] at h
      rw [List.findIdx?_cons, h]; rfl
  · rfl

theorem writeQuoted_writes (d : Dialect) (field : Bytes) :
    WritesText (writeQuoted d field) (quotedText d field) := by
  unfold writeQuoted quotedText
  rcases he : d.escape with _ | escape | _ | escape
  · have hs : quotedSpecial d = (· == d.quote) := by funext b; simp [quotedSpecial, he]
    have ht : quotedEscape d = fun _ => [d.quote, d.quote] := by
      funext b; simp [quotedEscape, he]
    have hloop : Appends (substLoop (nextDoubledQuote d) (fun _ => [d.quote, d.quote])
        field.length field : Emit Unit) (.ok ())
        (substAll (· == d.quote) (fun _ => [d.quote, d.quote]) field) :=
      substLoop_appends (nextDoubledQuote_eq d) field.length field le_rfl
    refine Appends.congr (((appends_push _).bind_ok (hloop.bind_ok (appends_push _)))) rfl ?_
    rw [hs, ht]; simp
  · have hs : quotedSpecial d = fun b => b == d.quote || b == escape := by
      funext b; simp [quotedSpecial, he]
    have ht : quotedEscape d = fun byte => [escape, byte] := by funext b; simp [quotedEscape, he]
    have hloop : Appends (substLoop (nextBackslashEscape d escape) (fun byte => [escape, byte])
        field.length field : Emit Unit) (.ok ())
        (substAll (fun b => b == d.quote || b == escape) (fun byte => [escape, byte]) field) :=
      substLoop_appends (nextBackslashEscape_eq d escape) field.length field le_rfl
    refine Appends.congr (((appends_push _).bind_ok (hloop.bind_ok (appends_push _)))) rfl ?_
    rw [hs, ht]; simp
  all_goals exact ⟨_, (appends_push _).bind_ok ((appends_throw _).bind_error)⟩

theorem writeBare_writes (d : Dialect) (quote : Bool) (field : Bytes) :
    WritesText (if quote then writeQuoted d field else extend field) (bareText d quote field) := by
  cases quote
  · exact writes_extend field
  · exact writeQuoted_writes d field

theorem writeNecessary_writes (d : Dialect) (field : Bytes) (isFirst : Bool) :
    WritesText (writeNecessary d field isFirst) (plainText d .necessary field isFirst) :=
  writeBare_writes d _ field

/-- The specialised writer of the default dialect is the general one. -/
theorem writeCsvNecessary_eq : writeCsvNecessary = writeNecessary .csv := by
  funext field isFirst
  rw [writeCsvNecessary, writeNecessary, needsCsvQuotes_eq]
  have hloop : Appends (substLoop (find1 34) (fun _ => [34, 34]) field.length field : Emit Unit)
      (.ok ()) (substAll (· == 34) (fun _ => [34, 34]) field) :=
    substLoop_appends (fun _ => rfl) _ _ le_rfl
  split
  · exact ((appends_push _).bind_ok (hloop.bind_ok (appends_push _))).ext (by
      have := writeQuoted_writes .csv field
      exact this)
  · rfl

theorem writeNonNumeric_writes (d : Dialect) (field : Bytes) (isFirst : Bool) :
    WritesText (writeNonNumeric d field isFirst) (plainText d .nonNumeric field isFirst) :=
  writeBare_writes d _ field

theorem writeUnquoted_writes (d : Dialect) (field : Bytes) (isFirst : Bool) :
    WritesText (writeUnquoted d field isFirst) (plainText d .never field isFirst) := by
  unfold writeUnquoted plainText
  cases needsQuotes d field isFirst
  · exact writes_extend field
  · exact writes_throw _

theorem writeAbsent_writes (d : Dialect) (quoting : Quoting) (nulls : Nulls) :
    WritesText (writeAbsent d quoting nulls) (absentText d quoting nulls) := by
  cases nulls
  case none =>
    cases quoting
    case always | nonNumeric => exact writeQuoted_writes d []
    all_goals exact writes_pure ()
  case postgresCsv => exact writes_pure ()
  case mysql => exact writes_extend _

theorem writeEscapedFrom_appends (d : Dialect) (escape : UInt8) (field : Bytes) :
    ∀ (remaining : Bytes) (start index : ℕ), start ≤ index → field.drop index = remaining →
      Appends (writeEscapedFrom d escape field start index remaining) (.ok ())
        ((field.take index).drop start ++ escapeAll d escape remaining) := by
  intro remaining
  induction remaining with
  | nil =>
    intro start index _ hr
    have htake : field.take index = field := by
      rw [List.drop_eq_nil_iff] at hr; exact List.take_of_length_le hr
    exact (appends_extend _).congr rfl (by simp [htake, escapeAll])
  | cons byte remaining ih =>
    intro start index hle hr
    have hlt : index < field.length := by
      by_contra h; rw [List.drop_of_length_le (by omega)] at hr; cases hr
    have hdrop : field.drop (index + 1) = remaining := by
      rw [← List.drop_drop, hr, List.drop_one, List.tail_cons]
    have htake : field.take (index + 1) = field.take index ++ [byte] := by
      have hb : field[index]? = some byte := by
        rw [← Nat.add_zero index, ← List.getElem?_drop, hr]; rfl
      rw [List.take_add_one, hb]; rfl
    unfold writeEscapedFrom
    rcases he : escapedByte d escape byte with _ | escaped
    · refine (ih start (index + 1) (by omega) hdrop).congr rfl ?_
      rw [htake, List.drop_append_of_le_length (by simp; omega)]
      simp [escapeAll, he]
    · refine ((appends_extend _).bind_ok ((appends_extend _).bind_ok
        (ih (index + 1) (index + 1) le_rfl hdrop))).congr rfl ?_
      simp [escapeAll, he]

theorem writeUnquotedEscapedField_appends (d : Dialect) (escape : UInt8) (field : Bytes)
    (isFirst : Bool) :
    Appends (writeUnquotedEscapedField d escape field isFirst) (.ok ())
      (escapedText d escape field isFirst) := by
  unfold writeUnquotedEscapedField escapedText
  split
  · rename_i h
    have hlen : 1 ≤ field.length := by
      rw [Nat.one_le_iff_ne_zero, List.length_eq_zero_iff.ne]
      rintro rfl; simp [Dialect.leads, bom] at h
    have hrest := writeEscapedFrom_appends d escape field _ 1 1 le_rfl rfl
    refine ((appends_extend _).bind_ok hrest).congr rfl ?_
    rw [List.drop_eq_nil_of_le (by simp), List.nil_append]
  · have hrest := writeEscapedFrom_appends d escape field field 0 0 le_rfl rfl
    exact hrest.congr rfl (by simp)

theorem writePlain_writes (d : Dialect) (quoting : Quoting) (field : Bytes) (isFirst : Bool) :
    WritesText (writeRecordField d quoting field isFirst) (plainText d quoting field isFirst) := by
  cases quoting
  case necessary =>
    rw [writeRecordField]
    split
    · rename_i h; rw [writeCsvNecessary_eq, h]; exact writeNecessary_writes _ field isFirst
    · exact writeNecessary_writes d field isFirst
  case always => exact writeQuoted_writes d field
  case never => exact writeUnquoted_writes d field isFirst
  case nonNumeric => exact writeNonNumeric_writes d field isFirst
  case raw => exact writes_extend field

theorem writeConfiguredField_writes (d : Dialect) (quoting : Quoting) (nulls : Nulls)
    (field : Bytes) (isFirst : Bool) :
    WritesText (writeConfiguredField d quoting nulls field isFirst)
      (presentText d quoting nulls field isFirst) := by
  unfold writeConfiguredField presentText
  rcases d.escape.unquotedByte with _ | escape
  · simp only
    split_ifs
    · exact writeQuoted_writes d field
    · cases quoting
      case never | raw => exact writes_throw _
      all_goals exact writeQuoted_writes d field
    · cases quoting
      case necessary => exact writeNecessary_writes d field isFirst
      case always => exact writeQuoted_writes d field
      case never => exact writeUnquoted_writes d field isFirst
      case nonNumeric => exact writeNonNumeric_writes d field isFirst
      case raw => exact writes_extend field
  · simp only
    split_ifs
    · exact writes_extend _
    · exact writeUnquotedEscapedField_appends d escape field isFirst

/-- Without NULLs or unquoted escapes only the quoting mode counts. -/
theorem presentText_plain (h : d.escape.escapesUnquoted = false) (field : Bytes) (isFirst : Bool) :
    presentText d quoting .none field isFirst = plainText d quoting field isFirst := by
  have hb : d.escape.unquotedByte = none := by
    rw [Escape.escapesUnquoted] at h; exact Option.isSome_eq_false_iff.mp h |> Option.isNone_iff_eq_none.mp
  simp [presentText, hb]

/-! ## The writers of a record write its text -/

theorem tail_text (t : Tail) : (if !t.isEmpty then t.asSlice else []) = t.asSlice := by
  unfold Tail.isEmpty Tail.asSlice
  cases t.unusable <;> cases t.bytes <;> simp

theorem writeDelimiter_appends (d : Dialect) :
    Appends (writeDelimiter d) (.ok ()) d.delimiterText :=
  ((appends_push _).bind_ok (appends_onlyIf (appends_extend _))).congr rfl (by
    rw [tail_text]; rfl)

theorem finishRecord_appends (d : Dialect) : Appends (finishRecord d) (.ok ()) d.endingText :=
  ((appends_onlyIf (appends_push _)).bind_ok ((appends_push _).bind_ok
    (appends_onlyIf (appends_extend _)))).congr rfl (by rw [tail_text]; rfl)

/-- The result of writing `text` for `count` fields. -/
def counted (count : ℕ) (text : Except EmitError Bytes) : Except EmitError (ℕ × Bytes) :=
  text.map fun text => (count, text)

theorem writeRest_writes {write : Bytes → Bool → Emit Unit}
    (hw : ∀ field, WritesText (write field false) (fieldText d quoting nulls (some field) false)) :
    ∀ (fields : List Bytes) (count : ℕ), Writes (writeRest (writeDelimiter d) write fields count)
      (counted (count + fields.length) (restText d quoting nulls (fields.map some))) := by
  intro fields
  induction fields with
  | nil => intro count; exact writes_pure count
  | cons field fields ih =>
    intro count
    refine (Writes.bind (r := .ok ((), d.delimiterText)) (writeDelimiter_appends d) fun _ =>
      (hw field).bind fun _ => ih (count + 1)).congr ?_
    rw [List.map_cons, restText]
    rcases fieldText d quoting nulls (some field) false with e | text
    · rfl
    · rcases restText d quoting nulls (fields.map some) with e | rest
      · rfl
      · simp [andThen, counted, Except.map, bind, Except.bind, Nat.add_comm, Nat.add_left_comm]

theorem writeFields_writes {write : Bytes → Bool → Emit Unit} (hw : ∀ field isFirst,
      WritesText (write field isFirst) (fieldText d quoting nulls (some field) isFirst))
    (first : Bytes) (fields : List Bytes) :
    Writes (writeFields (writeDelimiter d) write first fields)
      (counted (fields.length + 1) (fieldsText d quoting nulls (some first :: fields.map some))) := by
  refine ((hw first true).bind fun _ =>
    writeRest_writes (fun field => hw field false) fields 1).congr ?_
  rw [fieldsText]
  rcases fieldText d quoting nulls (some first) true with e | text
  · rfl
  · rcases restText d quoting nulls (fields.map some) with e | rest
    · rfl
    · simp [andThen, counted, Except.map, bind, Except.bind, Nat.add_comm]

/-- Fields, then the ending: the record, when no lone empty field wants quotes. -/
theorem finish_writes {m : Emit ℕ} {count : ℕ} {text : Except EmitError Bytes}
    (hm : Writes m (counted count text)) :
    Writes (do let count ← m; finishRecord d; pure count)
      (counted count (text.map (· ++ d.endingText))) := by
  refine (hm.bind (s := fun n => .ok (n, d.endingText)) fun n =>
    ((finishRecord_appends d).bind_ok (appends_pure n)).congr rfl (by simp)).congr ?_
  cases text <;> rfl

theorem recordText_of_ne (h : quoting ≠ .necessary) (fields : List (Option Bytes)) :
    recordText d quoting nulls fields =
      (fieldsText d quoting nulls fields).map (· ++ d.endingText) := by
  rw [recordText]
  cases fieldsText d quoting nulls fields <;>
    simp [bind, Except.bind, Except.map, fixupText, h]

theorem restText_ne_nil (field : Option Bytes) (fields : List (Option Bytes)) :
    restText d quoting nulls (field :: fields) ≠ .ok [] := by
  rw [restText]
  rcases fieldText d quoting nulls field false with e | text
  · simp [bind, Except.bind]
  · rcases restText d quoting nulls fields with e | rest
    · simp [bind, Except.bind]
    · simp [bind, Except.bind, Dialect.delimiterText]

/-- Only a lone empty field has no text under `Quoting::Necessary`. -/
theorem fieldsText_eq_nil (h : d.escape.escapesUnquoted = false) {first : Bytes}
    {fields : List (Option Bytes)}
    (ht : fieldsText d .necessary .none (some first :: fields) = .ok []) :
    first = [] ∧ fields = [] := by
  rw [fieldsText, fieldText, presentText_plain h] at ht
  rcases hp : plainText d .necessary first true with e | text
  · rw [hp] at ht; cases ht
  · rcases hr : restText d .necessary .none fields with e | rest
    · rw [hp, hr] at ht; cases ht
    · rw [hp, hr] at ht
      have hnil : text ++ rest = [] := Except.ok.inj ht
      obtain ⟨rfl, rfl⟩ := List.append_eq_nil_iff.mp hnil
      constructor
      · rw [plainText, bareText] at hp
        split at hp
        · rw [quotedText, h] at hp; cases hp
        · exact Except.ok.inj hp
      · cases fields with
        | nil => rfl
        | cons field fields => exact absurd hr (restText_ne_nil field fields)

theorem writeFields_csv : writeFields (push 44) writeCsvNecessary =
    writeFields (writeDelimiter .csv) (writeNecessary .csv) := by
  have hpush : (push 44 : Emit Unit) = writeDelimiter .csv :=
    (appends_push 44).ext (writeDelimiter_appends .csv)
  rw [hpush, writeCsvNecessary_eq]

/-- **`emit_record_runtime` writes the text of the record.** -/
theorem emitRecordRuntime_writes (h : d.escape.escapesUnquoted = false) (quoting : Quoting)
    (fields : List Bytes) :
    Writes (emitRecordRuntime d quoting fields)
      (counted fields.length (recordText d quoting .none (fields.map some))) := by
  have hw : ∀ write : Bytes → Bool → Emit Unit, (∀ field isFirst,
      WritesText (write field isFirst) (plainText d quoting field isFirst)) → ∀ field isFirst,
      WritesText (write field isFirst) (fieldText d quoting .none (some field) isFirst) := by
    intro write hw field isFirst
    rw [fieldText, presentText_plain h]; exact hw field isFirst
  cases fields with
  | nil =>
    exact Appends.congr ((finishRecord_appends d).bind_ok (appends_pure 0)) rfl (by
      simp [fixupText, loneEmpty])
  | cons first fields =>
    unfold emitRecordRuntime
    cases quoting
    case necessary =>
      have hfields : Writes (if d = .csv then writeFields (push 44) writeCsvNecessary first fields
          else writeFields (writeDelimiter d) (writeNecessary d) first fields)
          (counted (fields.length + 1)
            (fieldsText d .necessary .none (some first :: fields.map some))) := by
        have hgen := writeFields_writes (hw _ (writeNecessary_writes d)) first fields
        split
        · rename_i hd; rw [writeFields_csv, ← hd]; exact hgen
        · exact hgen
      refine (hfields.watch.bind (s := fun r => .ok (r.1,
        (if r.2 then [d.quote, d.quote] else []) ++ d.endingText)) fun r =>
          ((appends_onlyIf (appends_extend _)).bind_ok
            ((finishRecord_appends d).bind_ok (appends_pure r.1))).congr rfl (by simp)).congr ?_
      rw [List.map_cons, recordText]
      rcases ht : fieldsText d .necessary .none (some first :: fields.map some) with e | text
      · rfl
      · rcases hnil : text with _ | ⟨b, text'⟩
        · subst hnil
          obtain ⟨rfl, hfs⟩ := fieldsText_eq_nil h ht
          obtain rfl : fields = [] := List.map_eq_nil_iff.mp hfs
          rfl
        · simp [andThen, counted, Except.map, bind, Except.bind, fixupText]
    case nonNumeric =>
      rw [recordText_of_ne (by decide)]
      exact finish_writes (writeFields_writes (hw _ (writeNonNumeric_writes d)) first fields)
    case always =>
      rw [recordText_of_ne (by decide)]
      exact finish_writes (writeFields_writes
        (hw _ fun field _ => writeQuoted_writes d field) first fields)
    case never =>
      rw [recordText_of_ne (by decide)]
      exact finish_writes (writeFields_writes (hw _ (writeUnquoted_writes d)) first fields).rollback
    case raw =>
      rw [recordText_of_ne (by decide)]
      exact finish_writes (writeFields_writes
        (hw _ fun field _ => writes_extend field) first fields)

/-! ### NULL-aware records -/

/-- Whether the last field is empty and not NULL, as the loop tracks it. -/
def lastEmpty (nulls : Nulls) : List (Option Bytes) → Bool → Bool
  | [], onlyEmpty => onlyEmpty
  | some field :: fields, _ => lastEmpty nulls fields field.isEmpty
  | none :: fields, onlyEmpty => lastEmpty nulls fields (nulls == .none || onlyEmpty)

theorem writeNullableFields_writes :
    ∀ (fields : List (Option Bytes)) (count : ℕ) (onlyEmpty : Bool),
      Writes (writeNullableFields d quoting nulls fields count onlyEmpty)
        (((if count = 0 then fieldsText d quoting nulls fields
            else restText d quoting nulls fields)).map fun text =>
          ((count + fields.length, lastEmpty nulls fields onlyEmpty), text)) := by
  intro fields
  induction fields with
  | nil =>
    intro count onlyEmpty
    rw [writeNullableFields, fieldsText, restText, ite_self]; exact writes_pure _
  | cons field fields ih =>
    intro count onlyEmpty
    -- one field: its delimiter, its text, and the flag it leaves
    have hstep : ∀ (m : Emit Unit) (onlyEmpty' : Bool),
        WritesText m (fieldText d quoting nulls field (count == 0)) →
        lastEmpty nulls (field :: fields) onlyEmpty = lastEmpty nulls fields onlyEmpty' →
        Writes (do
          onlyIf (count ≠ 0) (writeDelimiter d)
          m
          writeNullableFields d quoting nulls fields (count + 1) onlyEmpty')
        ((if count = 0 then fieldsText d quoting nulls (field :: fields)
            else restText d quoting nulls (field :: fields)).map fun text =>
          ((count + (field :: fields).length, lastEmpty nulls (field :: fields) onlyEmpty),
            text)) := by
      intro m onlyEmpty' hm hlast
      refine (Writes.bind (r := .ok ((), if count ≠ 0 then d.delimiterText else []))
        (appends_onlyIf (writeDelimiter_appends d)) fun _ => hm.bind fun _ =>
          ih (count + 1) onlyEmpty').congr ?_
      rw [hlast, if_neg (Nat.succ_ne_zero count)]
      by_cases hc : count = 0
      · subst hc
        rw [fieldsText, if_neg (by simp), if_pos rfl, beq_self_eq_true]
        rcases fieldText d quoting nulls field true with e | text
        · rfl
        · rcases restText d quoting nulls fields with e | rest
          · rfl
          · simp [andThen, Except.map, bind, Except.bind, Nat.add_comm]
      · rw [restText, if_pos hc, if_neg hc, beq_eq_false_iff_ne.mpr hc]
        rcases fieldText d quoting nulls field false with e | text
        · rfl
        · rcases restText d quoting nulls fields with e | rest
          · rfl
          · simp [andThen, Except.map, bind, Except.bind, Nat.add_comm, Nat.add_left_comm]
    rcases field with _ | field
    · rw [writeNullableFields]
      exact hstep _ (nulls == .none || onlyEmpty) (writeAbsent_writes d quoting nulls) rfl
    · rw [writeNullableFields]
      refine hstep _ field.isEmpty ?_ rfl
      have hfirst : (count + 1 == 1) = (count == 0) := by
        rw [Bool.eq_iff_iff]; simp
      rw [hfirst]; exact writeConfiguredField_writes d quoting nulls field _

/-- **`emit_nullable_record_runtime` writes the text of the record.** -/
theorem emitNullableRecordRuntime_writes (d : Dialect) (quoting : Quoting) (nulls : Nulls)
    (fields : List (Option Bytes)) :
    Writes (emitNullableRecordRuntime d quoting nulls fields)
      (counted fields.length (recordText d quoting nulls fields)) := by
  refine ((writeNullableFields_writes fields 0 false).rollback.watch.bind
    (s := fun r => .ok (r.1.1, (if r.1.1 = 1 ∧ r.1.2 ∧ r.2 ∧ quoting = .necessary then
      [d.quote, d.quote] else []) ++ d.endingText)) fun r =>
      ((appends_onlyIf (appends_extend _)).bind_ok
        ((finishRecord_appends d).bind_ok (appends_pure r.1.1))).congr rfl (by simp)).congr ?_
  rw [if_pos rfl, recordText]
  rcases fieldsText d quoting nulls fields with e | text
  · rfl
  · have hlone : (fields.length = 1 ∧ lastEmpty nulls fields false ∧ text.isEmpty ∧
        quoting = .necessary) ↔
        (loneEmpty nulls fields ∧ text.isEmpty ∧ quoting = .necessary) := by
      match fields with
      | [] => simp [loneEmpty]
      | [none] => simp [loneEmpty, lastEmpty]
      | [some field] => simp [loneEmpty, lastEmpty]
      | _ :: _ :: _ => simp [loneEmpty]
    have hfix : text ++ ((if loneEmpty nulls fields ∧ text.isEmpty ∧ quoting = .necessary then
        [d.quote, d.quote] else []) ++ d.endingText) =
        fixupText d quoting (loneEmpty nulls fields) text ++ d.endingText := by
      unfold fixupText
      split_ifs with hc
      · rw [List.isEmpty_iff.mp hc.2.1]; rfl
      · simp
    simp only [andThen, counted, Except.map, bind, Except.bind, Nat.zero_add]
    rw [← hfix, if_congr hlone rfl rfl]

theorem Valid.escape {o : FormatSettings} (h : o.Valid) (he : o.dialect.escape.escapesUnquoted) :
    o.quoting = .never := by
  unfold FormatSettings.Valid FormatSettings.invalidity at h
  split at h
  · cases h
  · rw [he] at h
    by_contra hq
    rw [beq_eq_false_iff_ne.mpr hq] at h; simp at h

end Coseva
