/-
  Coseva — what an emitter writes is read back.

  * `documentText`, `DocumentStands`: the text of a list of records, and when it
    survives as it stands;
  * `emitAll_buffer`: what an emitter that accepts every record leaves behind;
  * `quoted_roundTrip`, `escaped_roundTrip`, `nullable_roundTrip`: the records
    come back.
-/
import Coseva.RecordText
import Coseva.EmitAgree

namespace Coseva

open Engine

/-! ## Documents -/

/-- The text of a document, where every record has one. -/
def documentText (o : FormatSettings) (rows : List (List (Option Bytes))) : Bytes :=
  rows.flatMap fun row => (recordText o.dialect o.quoting o.nulls row).toOption.getD []

/-- A record that `rest` follows survives: its fields stand, no separator of it
    is skipped as whitespace, and it does not begin like a blank line or a
    comment. -/
structure Survives (o : FormatSettings) (rest : Bytes) (final : Bool)
    (row : List (Option Bytes)) : Prop where
  stands : RowStands o rest true row
  spaced : rowSpaced o final true row = true
  blank : o.blankRecords = .skip → readsBlank o row = false
  comment : readsComment o row = false

/-- Every record of a document survives. -/
def DocumentStands (o : FormatSettings) : List (List (Option Bytes)) → Prop
  | [] => True
  | row :: rows => Survives o (documentText o rows) rows.isEmpty row ∧ DocumentStands o rows

/-- Where the parser looks for a mark that the emitter does not write, the
    document does not begin like one. -/
def MarkApart (o : FormatSettings) (rows : List (List (Option Bytes))) : Prop :=
  o.writeBom = .omit → o.readBom ≠ .preserve → bom.isPrefixOf (documentText o rows) = false

section document

variable {cfg : ParserSettings} {o : FormatSettings}

/-- **The text of a document spells its records.** -/
theorem document_spells (valid : cfg.Valid) (hquoting : cfg.quoting ≠ .raw)
    (hce : EscapeApart cfg.toFormatSettings) {rows : List (List (Option Bytes))}
    (hne : [] ∉ rows) (hpresent : cfg.nulls = .none → ∀ row ∈ rows, none ∉ row)
    (hst : DocumentStands cfg.toFormatSettings rows)
    (htext : ∀ row ∈ rows, ∃ text, recordText cfg.dialect cfg.quoting cfg.nulls row = .ok text) :
    DocumentSpells cfg (documentText cfg.toFormatSettings rows)
      (rows.map (·.map Field.ofOption)) := by
  induction rows with
  | nil => exact .nil
  | cons row rows ih =>
    obtain ⟨hrow, hrows⟩ := hst
    obtain ⟨text, ht⟩ := htext row List.mem_cons_self
    have ih := ih (fun h => hne (List.mem_cons_of_mem row h))
      (fun hn r hr => hpresent hn r (List.mem_cons_of_mem row hr)) hrows
      fun r hr => htext r (List.mem_cons_of_mem row hr)
    have hdoc : documentText cfg.toFormatSettings (row :: rows) =
        text ++ documentText cfg.toFormatSettings rows := by
      simp [documentText, ht, Except.toOption]
    obtain ⟨field, fields, rfl⟩ : ∃ field fields, row = field :: fields :=
      List.exists_cons_of_ne_nil fun h => hne (by rw [h]; exact List.mem_cons_self)
    have hpresent := fun hn => hpresent hn (field :: fields) List.mem_cons_self
    have hfinal : rows.isEmpty = true → documentText cfg.toFormatSettings rows = [] := by
      intro h
      rw [List.isEmpty_iff] at h
      rw [h]; rfl
    rw [hdoc]
    exact .cons (record_spells valid hquoting hpresent hrow.stands hrow.spaced hfinal ht)
      (record_kept valid hquoting hce hpresent hrow.stands hrow.blank hrow.comment ht) ih

end document

/-! ## Emitters -/

namespace PushEmitter

variable {α : Type} {o : FormatSettings}

/-- Emit record after record, to the first that is refused. -/
def emitAll (emit : PushEmitter → α → Except EmitError Unit × PushEmitter) (s : PushEmitter) :
    List α → Except EmitError PushEmitter
  | [] => .ok s
  | row :: rows =>
    match emit s row with
    | (.error e, _) => .error e
    | (.ok (), s') => emitAll emit s' rows

/-- A record that is accepted has a text, which opens the document or continues
    it. -/
theorem settleRecord_ok {s s' : PushEmitter} {row : List (Option Bytes)} {texts : List Bytes}
    (hs : s.Configured o) (ho : s.Opened texts)
    (h : s.settleRecord (s.text none row) = (.ok (), s')) :
    s'.Configured o ∧ ∃ text, recordText o.dialect o.quoting o.nulls row = .ok text ∧
      s'.Opened (texts ++ [text]) := by
  obtain ⟨hd, hq, hn, hb⟩ := hs
  unfold PushEmitter.text at h
  simp only [CsvFormat.dialect, CsvFormat.quoting, CsvFormat.nulls, hd, hq, hn] at h
  rcases ht : recordText o.dialect o.quoting o.nulls row with e | text <;> rw [ht] at h
  · cases h
  change s.settleRecord (.ok (row.length, text)) = _ at h
  rw [settleRecord] at h
  rcases hv : validateFieldCount s.fieldCount s.expectedFields row.length with
    ⟨e | _, expected⟩ <;> rw [hv] at h
  · cases h
  obtain rfl := (Prod.mk.inj h).2
  refine ⟨commit_configured ⟨hd, hq, hn, hb⟩, text, rfl, ?_⟩
  obtain ⟨hst, hbuf⟩ := ho
  cases texts with
  | nil =>
    have hst : s.started = false := hst
    have hnil : s.buffer = [] := hbuf
    unfold Opened
    simp only [commit, hst, hnil, output]
    cases s.bom <;> simp
  | cons t texts =>
    have hst : s.started = true := hst
    unfold Opened
    simp only [commit, hst, hbuf, output]
    simp

/-- Every record of a run that is accepted whole has a text, and the document
    consists of them. -/
theorem emitAll_opened {emit : PushEmitter → α → Except EmitError Unit × PushEmitter}
    {view : α → List (Option Bytes)}
    (hemit : ∀ s row, emit s row = s.settleRecord (s.text none (view row))) {rows : List α} :
    ∀ {s s' : PushEmitter} {texts : List Bytes}, s.Configured o → s.Opened texts →
      emitAll emit s rows = .ok s' →
      (∀ row ∈ rows.map view, ∃ text, recordText o.dialect o.quoting o.nulls row = .ok text) ∧
        s'.Configured o ∧ s'.Opened (texts ++ (rows.map view).map fun row =>
          (recordText o.dialect o.quoting o.nulls row).toOption.getD []) := by
  induction rows with
  | nil =>
    intro s s' texts hs ho h
    obtain rfl := Except.ok.inj h
    exact ⟨by simp, hs, by simpa using ho⟩
  | cons row rows ih =>
    intro s s' texts hs ho h
    rw [emitAll, hemit] at h
    rcases hr : s.settleRecord (s.text none (view row)) with ⟨e | _, next⟩ <;> rw [hr] at h
    · cases h
    obtain ⟨hs', text, ht, ho'⟩ := settleRecord_ok hs ho hr
    obtain ⟨htexts, hs'', ho''⟩ := ih hs' ho' h
    refine ⟨?_, hs'', ?_⟩
    · rintro r hmem
      rcases List.mem_cons.mp hmem with rfl | hmem
      · exact ⟨text, ht⟩
      · exact htexts r hmem
    · simpa [ht, Except.toOption] using ho''

/-- **The output of a run that is accepted whole**: the text of its records,
    behind the mark if there is any record. -/
theorem emitAll_buffer {emit : PushEmitter → α → Except EmitError Unit × PushEmitter}
    {view : α → List (Option Bytes)}
    (hemit : ∀ s row, emit s row = s.settleRecord (s.text none (view row)))
    (valid : o.Valid) {fieldCount : FieldCount} {hasHeaders : Bool} {rows : List α}
    {s : PushEmitter} (h : emitAll emit (new o valid fieldCount hasHeaders) rows = .ok s) :
    (∀ row ∈ rows.map view, ∃ text, recordText o.dialect o.quoting o.nulls row = .ok text) ∧
      s.buffer = (if rows = [] ∨ o.writeBom ≠ .emit then [] else Coseva.bom) ++
        documentText o (rows.map view) := by
  have hnew : (new o valid fieldCount hasHeaders).Opened [] := ⟨rfl, rfl⟩
  obtain ⟨htexts, ⟨-, -, -, hb⟩, -, hbuf⟩ :=
    emitAll_opened hemit ⟨rfl, rfl, rfl, rfl⟩ hnew h
  refine ⟨htexts, ?_⟩
  rw [hbuf, hb, List.nil_append, output, documentText, List.flatMap_def]
  cases rows with
  | nil => rfl
  | cons row rows => by_cases hw : o.writeBom = .emit <;> simp [hw]

end PushEmitter

/-! ## Round trips -/

/-- What a round trip relies on besides its records: a format that is written
    and read without trimming, under a mark that is looked for if it is
    written, and a parser of the format whose limits the output cannot reach. -/
structure Untrimmed (o : FormatOptions) (cfg : ParserSettings) (size : ℕ) : Prop where
  format : cfg.toFormatOptions = o
  trim : o.trim.fields = false
  skipInitialSpace : o.skipInitialSpace = false
  mark : o.writeBom = .emit → o.readBom = .detect
  headers : cfg.headers = .none
  fieldCount : cfg.fieldCount = .flexible
  fits : cfg.limits.Fits size

section roundTrip

variable {α : Type} {o : FormatOptions} {cfg : ParserSettings} {s : PushEmitter}

/-- **What is emitted is read back**, where every record survives. -/
theorem emitted_reads {emit : PushEmitter → α → Except EmitError Unit × PushEmitter}
    (view : α → List (Option Bytes))
    (hemit : ∀ s row, emit s row = s.settleRecord (s.text none (view row)))
    (valid : o.Valid) (hquoting : o.quoting ≠ .raw) (hce : EscapeApart o.toFormatSettings)
    {fieldCount : FieldCount} {hasHeaders : Bool} {rows : List α}
    (hne : [] ∉ rows.map view)
    (hpresent : o.nulls = .none → ∀ row ∈ rows.map view, none ∉ row)
    (hst : DocumentStands o.toFormatSettings (rows.map view))
    (hmark : MarkApart o.toFormatSettings (rows.map view))
    (h : PushEmitter.emitAll emit (.new o.toFormatSettings valid fieldCount hasHeaders) rows = .ok s)
    (hcfg : Untrimmed o cfg s.buffer.length) :
    SliceParser.records cfg none s.buffer = .ok ((rows.map view).map (·.map Field.ofOption)) := by
  obtain ⟨htexts, hbuf⟩ := PushEmitter.emitAll_buffer hemit valid h
  obtain ⟨rfl, htrim, hskip, hdetect, hheaders, hcount, hfits⟩ := hcfg
  have hspells := document_spells valid hquoting hce hne hpresent hst htexts
  have hr : Reads cfg none s.buffer :=
    ⟨valid.sound, cfg.follows_none, hfits, hskip, hce, hcount⟩
  refine SliceParser.records_reads hr (by simp) htrim hheaders hspells ?_
  rw [hbuf]
  by_cases hw : cfg.writeBom = .emit
  · cases rows with
    | nil => exact Or.inr ⟨rfl, Or.inr rfl⟩
    | cons row rows => exact Or.inl ⟨by simp [hw], hdetect hw⟩
  · have homit : cfg.writeBom = .omit := by
      cases h : cfg.writeBom
      · rfl
      · exact absurd h hw
    refine Or.inr ⟨by simp [hw], ?_⟩
    by_cases hp : cfg.readBom = .preserve
    · exact Or.inl hp
    · exact Or.inr (hmark homit hp)

/-! ### Quoting dialects -/

/-- No separator of a document is skipped as whitespace. -/
def rowsSpaced (o : FormatSettings) : List (List (Option Bytes)) → Bool
  | [] => true
  | row :: rows => rowSpaced o rows.isEmpty true row && rowsSpaced o rows

/-- Fields stand in a dialect that quotes and has no marker of NULL. -/
theorem FieldStands.of_quotes {o : FormatSettings} (hesc : o.dialect.escape.unquotedByte = none)
    (hnulls : o.nulls ≠ .mysql) (isFirst last : Bool) (after : Bytes) (field : Option Bytes) :
    FieldStands o isFirst last after field := by
  have hmysql : o.dialect.escape ≠ .mysql := by
    intro h
    rw [h] at hesc
    cases hesc
  have hunquoted : ∀ escape, o.dialect.escape ≠ .unquoted escape := by
    intro escape h
    rw [h] at hesc
    cases hesc
  exact ⟨fun _ _ => ⟨fun h => absurd h hmysql, fun h => absurd h hmysql⟩,
    fun _ _ => ⟨fun _ escape h => absurd h (hunquoted escape),
      fun _ _ escape h => absurd h (hunquoted escape), fun _ _ _ _ h => absurd h hmysql⟩,
    fun h => absurd h hnulls, fun h => absurd h hnulls, fun h => absurd h hnulls⟩

theorem RowStands.of_fields {o : FormatSettings} {rest : Bytes}
    (h : ∀ isFirst last after field, FieldStands o isFirst last after field)
    (row : List (Option Bytes)) : ∀ isFirst, RowStands o rest isFirst row := by
  induction row with
  | nil => exact fun _ => trivial
  | cons field fields ih =>
    intro isFirst
    cases fields with
    | nil => exact h _ _ _ _
    | cons next fields => exact ⟨h _ _ _ _, ih false⟩

theorem DocumentStands.of_quotes {o : FormatSettings} (hesc : o.dialect.escape.unquotedByte = none)
    (hnulls : o.nulls ≠ .mysql) {rows : List (List (Option Bytes))}
    (hspaced : rowsSpaced o rows = true)
    (hblank : o.blankRecords = .skip → ∀ row ∈ rows, readsBlank o row = false) :
    DocumentStands o rows := by
  have hmysql : (o.nulls == .mysql) = false := by simpa using hnulls
  induction rows with
  | nil => trivial
  | cons row rows ih =>
    rw [rowsSpaced, Bool.and_eq_true] at hspaced
    exact ⟨⟨.of_fields (FieldStands.of_quotes hesc hnulls) row true, hspaced.1,
        fun hb => hblank hb row List.mem_cons_self, by simp [readsComment, hmysql]⟩,
      ih hspaced.2 fun hb r hr => hblank hb r (List.mem_cons_of_mem row hr)⟩

/-- A record of present fields. -/
def present (row : List Bytes) : List (Option Bytes) := row.map some

/-- What a reader sees of a record of present fields. -/
def presentFields (row : List Bytes) : List Field := row.map fun bytes => ⟨bytes, false⟩

theorem map_present (rows : List (List Bytes)) :
    (rows.map present).map (·.map Field.ofOption) = rows.map presentFields := by
  simp only [List.map_map]
  refine List.map_congr_left fun row _ => ?_
  simp only [Function.comp, present, presentFields, List.map_map]
  rfl

theorem none_not_mem_present (rows : List (List Bytes)) : ∀ row ∈ rows.map present, none ∉ row := by
  intro row hrow
  obtain ⟨r, -, rfl⟩ := List.mem_map.mp hrow
  simp [present]

theorem nil_not_mem_present {rows : List (List Bytes)} (h : [] ∉ rows) :
    [] ∉ rows.map present := by
  intro hmem
  obtain ⟨r, hr, hnil⟩ := List.mem_map.mp hmem
  rw [present, List.map_eq_nil_iff] at hnil
  exact h (hnil ▸ hr)

/-- **Records of quoting dialects are read back**, unless one of them begins
    like a blank line that is skipped, a separator behind closing quotes is
    skipped as whitespace, or the document begins like a byte-order mark that
    it does not have. -/
theorem quoted_roundTrip (o : FormatOptions) (valid : o.Valid)
    (hescape : o.dialect.escape = .doubleQuote ∨ ∃ b, o.dialect.escape = .backslash b)
    (hnulls : o.nulls = .none) (hquoting : o.quoting ≠ .raw) (fieldCount : FieldCount)
    (hasHeaders : Bool) (rows : List (List Bytes)) (hne : [] ∉ rows) (s : PushEmitter)
    (h : PushEmitter.emitAll (PushEmitter.emitRecord none)
      (.new o.toFormatSettings valid fieldCount hasHeaders) rows = .ok s)
    (cfg : ParserSettings) (hcfg : Untrimmed o cfg s.buffer.length)
    (hspaced : rowsSpaced o.toFormatSettings (rows.map present) = true)
    (hblank : o.blankRecords = .skip →
      ∀ row ∈ rows, readsBlank o.toFormatSettings (present row) = false)
    (hmark : MarkApart o.toFormatSettings (rows.map present)) :
    SliceParser.records cfg none s.buffer = .ok (rows.map presentFields) := by
  have hesc : o.dialect.escape.unquotedByte = none := by
    rcases hescape with hx | ⟨b, hx⟩ <;> rw [hx] <;> rfl
  have hmysql : o.nulls ≠ .mysql := by rw [hnulls]; simp
  have hce : EscapeApart o.toFormatSettings := by
    intro _
    rw [hesc]
    simp
  have hst : DocumentStands o.toFormatSettings (rows.map present) :=
    .of_quotes hesc hmysql hspaced fun hb row hrow => by
      obtain ⟨r, hr, rfl⟩ := List.mem_map.mp hrow
      exact hblank hb r hr
  rw [← map_present]
  exact emitted_reads present (fun s row => s.emitRecord_eq none row) valid hquoting hce
    (nil_not_mem_present hne) (fun _ => none_not_mem_present rows) hst hmark h hcfg

/-! ### Dialects that escape outside quotes -/

/-- The fields of a record decode to themselves, and no carriage return of them
    is taken for a part of a record ending. -/
def EscapesStand (o : FormatSettings) : (isFirst : Bool) → List Bytes → Prop
  | _, [] => True
  | isFirst, field :: fields =>
    LettersApart o isFirst field ∧ ReturnsApart o isFirst fields.isEmpty field ∧
      EscapesStand o false fields

theorem FieldStands.of_escapes {o : FormatSettings} (hnulls : o.nulls = .none)
    {isFirst last : Bool} {field : Bytes} (hletters : LettersApart o isFirst field)
    (hreturns : ReturnsApart o isFirst last field) (after : Bytes) :
    FieldStands o isFirst last after (some field) := by
  have hmysql : o.nulls ≠ .mysql := by rw [hnulls]; simp
  refine ⟨fun bytes hb => ?_, fun bytes hb => ?_, fun h => absurd h hmysql,
    fun h => absurd h hmysql, fun h => absurd h hmysql⟩
  · obtain rfl := Option.some.inj hb
    exact hletters
  · obtain rfl := Option.some.inj hb
    exact hreturns

theorem RowStands.of_escapes {o : FormatSettings} (hnulls : o.nulls = .none) (rest : Bytes)
    {row : List Bytes} : ∀ {isFirst : Bool}, EscapesStand o isFirst row →
      RowStands o rest isFirst (present row) := by
  induction row with
  | nil => exact fun _ => trivial
  | cons field fields ih =>
    rintro isFirst ⟨hletters, hreturns, hfields⟩
    cases fields with
    | nil => exact FieldStands.of_escapes hnulls hletters hreturns _
    | cons next fields => exact ⟨FieldStands.of_escapes hnulls hletters hreturns _, ih hfields⟩

/-- No field is written between quotes. -/
theorem rowSpaced_of_escapes {o : FormatSettings} {escape : UInt8}
    (hesc : o.dialect.escape.unquotedByte = some escape) (final : Bool)
    (row : List (Option Bytes)) : ∀ isFirst, rowSpaced o final isFirst row = true := by
  have hquotes : ∀ isFirst lone field, writesQuotes o isFirst lone field = false := by
    intro isFirst lone field
    cases field <;> simp [writesQuotes, hesc]
  induction row with
  | nil => exact fun _ => rfl
  | cons field fields ih =>
    intro isFirst
    cases fields with
    | nil => simp [rowSpaced, hquotes]
    | cons next fields => simp [rowSpaced, hquotes, ih false]

theorem DocumentStands.of_escapes {o : FormatSettings} {escape : UInt8}
    (hesc : o.dialect.escape.unquotedByte = some escape) (hnulls : o.nulls = .none)
    {rows : List (List Bytes)} (hst : ∀ row ∈ rows, EscapesStand o true row)
    (hblank : o.blankRecords = .skip → ∀ row ∈ rows, readsBlank o (present row) = false) :
    DocumentStands o (rows.map present) := by
  induction rows with
  | nil => trivial
  | cons row rows ih =>
    exact ⟨⟨.of_escapes hnulls _ (hst row List.mem_cons_self),
        rowSpaced_of_escapes hesc _ _ true,
        fun hb => hblank hb row List.mem_cons_self, by simp [readsComment, hnulls]⟩,
      ih (fun r hr => hst r (List.mem_cons_of_mem row hr))
        fun hb r hr => hblank hb r (List.mem_cons_of_mem row hr)⟩

/-- **Records of dialects that escape outside quotes are read back**, unless a
    byte stands for another one behind the escape, a carriage return is taken
    for a part of a record ending, the escape is itself a part of it, or a
    record begins like a blank line or the document like a byte-order mark. -/
theorem escaped_roundTrip (o : FormatOptions) (valid : o.Valid)
    (hescape : o.dialect.escape = .mysql ∨ ∃ b, o.dialect.escape = .unquoted b)
    (hnulls : o.nulls = .none) (fieldCount : FieldCount) (hasHeaders : Bool)
    (rows : List (List Bytes)) (hne : [] ∉ rows) (s : PushEmitter)
    (h : PushEmitter.emitAll (PushEmitter.emitRecord none)
      (.new o.toFormatSettings valid fieldCount hasHeaders) rows = .ok s)
    (cfg : ParserSettings) (hcfg : Untrimmed o cfg s.buffer.length)
    (hce : rows ≠ [] → EscapeApart o.toFormatSettings)
    (hst : ∀ row ∈ rows, EscapesStand o.toFormatSettings true row)
    (hblank : o.blankRecords = .skip →
      ∀ row ∈ rows, readsBlank o.toFormatSettings (present row) = false)
    (hmark : MarkApart o.toFormatSettings (rows.map present)) :
    SliceParser.records cfg none s.buffer = .ok (rows.map presentFields) := by
  obtain ⟨escape, hesc⟩ : ∃ escape, o.dialect.escape.unquotedByte = some escape := by
    rcases hescape with hx | ⟨b, hx⟩ <;> rw [hx] <;> exact ⟨_, rfl⟩
  have hquoting : o.quoting ≠ .raw := by
    rw [Valid.escape valid (by simp [Escape.escapesUnquoted, hesc])]
    simp
  by_cases hrows : rows = []
  · subst hrows
    obtain rfl := Except.ok.inj h
    exact SliceParser.records_nil hcfg.headers
  rw [← map_present]
  exact emitted_reads present (fun s row => s.emitRecord_eq none row) valid hquoting (hce hrows)
    (nil_not_mem_present hne) (fun _ => none_not_mem_present rows)
    (.of_escapes hesc hnulls hst hblank) hmark h hcfg

/-! ### Dialects with NULL -/

/-- **Records with absent fields are read back**, where every record survives:
    what a marker of NULL or a field beside it is taken for, and what
    `quoted_roundTrip` and `escaped_roundTrip` say of its present fields. -/
theorem nullable_roundTrip (o : FormatOptions) (valid : o.Valid) (hnulls : o.nulls ≠ .none)
    (fieldCount : FieldCount) (hasHeaders : Bool) (rows : List (List (Option Bytes)))
    (hne : [] ∉ rows) (s : PushEmitter)
    (h : PushEmitter.emitAll (PushEmitter.emitNullable none)
      (.new o.toFormatSettings valid fieldCount hasHeaders) rows = .ok s)
    (cfg : ParserSettings) (hcfg : Untrimmed o cfg s.buffer.length)
    (hce : rows ≠ [] → EscapeApart o.toFormatSettings)
    (hst : DocumentStands o.toFormatSettings rows)
    (hmark : MarkApart o.toFormatSettings rows) :
    SliceParser.records cfg none s.buffer = .ok (rows.map (·.map Field.ofOption)) := by
  have hquoting : o.quoting ≠ .raw := by
    intro hraw
    unfold FormatSettings.Valid FormatSettings.invalidity at valid
    split at valid
    · cases valid
    split at valid
    · cases valid
    split at valid
    · cases valid
    cases hn : o.nulls <;> simp [hn, hraw] at valid hnulls
  by_cases hrows : rows = []
  · subst hrows
    obtain rfl := Except.ok.inj h
    exact SliceParser.records_nil hcfg.headers
  have hread : SliceParser.records cfg none s.buffer =
      .ok ((rows.map id).map (·.map Field.ofOption)) :=
    emitted_reads id (fun s row => s.emitNullable_eq none row) valid hquoting (hce hrows)
      (by rwa [List.map_id]) (fun hn => absurd hn hnulls) (by rwa [List.map_id])
      (by rwa [List.map_id]) h hcfg
  rwa [List.map_id] at hread

end roundTrip

/-- A parser of a format under the default limits. -/
def reader (o : FormatOptions) : ParserSettings :=
  { o with
    limits := .default
    fieldCount := .flexible
    headers := .none
    host := ⟨true, true, true⟩ }

/-- What an emitter of a format writes, to the first record that is refused. -/
def written (o : FormatOptions) (valid : o.Valid) (rows : List (List (Option Bytes))) :
    PushEmitter :=
  rows.foldl (fun s row => (s.emitNullable none row).2)
    (.new o.toFormatSettings valid .flexible false)

/-- A comma and a line feed come back from between quotes. -/
theorem quoted_roundTrip_csv :
    SliceParser.records (reader .csv) none [34, 44, 10, 34, 44, 98, 10] =
      .ok [presentFields [[44, 10], [98]]] :=
  quoted_roundTrip .csv (by decide) (Or.inl rfl) rfl (by decide) .flexible false [[[44, 10], [98]]]
    (by decide) (written .csv (by decide) [present [[44, 10], [98]]]) (by decide)
    (reader .csv) ⟨rfl, rfl, rfl, by decide, rfl, rfl, by decide⟩ (by decide) (by decide)
    fun _ _ => by decide

/-- Tab-separated values that may have whitespace behind closing quotes. -/
def paddedTsv : FormatOptions where
  dialect := .tsv
  syntax' := .compatible { Recovery.none with quoting := true, trailingWhitespaceAfterQuote := true }

/-- A tab behind closing quotes is skipped as whitespace, also where it is the
    delimiter. -/
theorem quoted_roundTrip_tab :
    ¬ ∀ (o : FormatOptions) (valid : o.Valid),
      (o.dialect.escape = .doubleQuote ∨ ∃ b, o.dialect.escape = .backslash b) →
      o.nulls = .none → o.quoting ≠ .raw →
      ∀ (fieldCount : FieldCount) (hasHeaders : Bool) (rows : List (List Bytes)), [] ∉ rows →
      ∀ s : PushEmitter, PushEmitter.emitAll (PushEmitter.emitRecord none)
        (.new o.toFormatSettings valid fieldCount hasHeaders) rows = .ok s →
      ∀ cfg : ParserSettings, Untrimmed o cfg s.buffer.length →
        SliceParser.records cfg none s.buffer = .ok (rows.map presentFields) := by
  intro h
  have hread := h paddedTsv (by decide) (Or.inl rfl) rfl (by decide) .flexible false
    [[[97, 9, 98], [99]]] (by decide) (written paddedTsv (by decide) [present [[97, 9, 98], [99]]])
    (by decide) (reader paddedTsv) ⟨rfl, rfl, rfl, by decide, rfl, rfl, by decide⟩
  exact absurd hread (by decide)

/-- `FormatOptions::PYTHON_ESCAPED`. -/
def pythonEscaped : FormatOptions :=
  .builtIn .pythonEscaped { dialect := .pythonEscaped, quoting := .never } rfl

/-- An escaped delimiter and a carriage return before a delimiter come back. -/
theorem escaped_roundTrip_python :
    SliceParser.records (reader pythonEscaped) none [97, 92, 44, 13, 44, 98, 10] =
      .ok [presentFields [[97, 44, 13], [98]]] := by
  have hletters : ∀ isFirst field, LettersApart pythonEscaped.toFormatSettings isFirst field :=
    fun _ _ => ⟨nofun, nofun⟩
  have hst : EscapesStand pythonEscaped.toFormatSettings true [[97, 44, 13], [98]] :=
    ⟨hletters _ _, ⟨nofun, nofun, nofun⟩,
      hletters _ _, ⟨nofun, fun _ _ _ _ => (by decide), nofun⟩, trivial⟩
  exact escaped_roundTrip pythonEscaped (by decide) (Or.inr ⟨92, rfl⟩) rfl .flexible false
    [[[97, 44, 13], [98]]] (by decide)
    (written pythonEscaped (by decide) [present [[97, 44, 13], [98]]]) (by decide)
    (reader pythonEscaped) ⟨rfl, rfl, rfl, by decide, rfl, rfl, by decide⟩
    (fun _ => nofun) (by simpa using hst) (by decide) fun _ _ => by decide

/-- A carriage return at the end of a record is taken for a part of its ending. -/
theorem escaped_roundTrip_return :
    ¬ ∀ (o : FormatOptions) (valid : o.Valid),
      (o.dialect.escape = .mysql ∨ ∃ b, o.dialect.escape = .unquoted b) →
      o.nulls = .none →
      ∀ (fieldCount : FieldCount) (hasHeaders : Bool) (rows : List (List Bytes)), [] ∉ rows →
      ∀ s : PushEmitter, PushEmitter.emitAll (PushEmitter.emitRecord none)
        (.new o.toFormatSettings valid fieldCount hasHeaders) rows = .ok s →
      ∀ cfg : ParserSettings, Untrimmed o cfg s.buffer.length →
        SliceParser.records cfg none s.buffer = .ok (rows.map presentFields) := by
  intro h
  have hread := h pythonEscaped (by decide) (Or.inr ⟨92, rfl⟩) rfl .flexible false
    [[[97, 13]]] (by decide) (written pythonEscaped (by decide) [present [[97, 13]]])
    (by decide) (reader pythonEscaped) ⟨rfl, rfl, rfl, by decide, rfl, rfl, by decide⟩
  exact absurd hread (by decide)

/-- PostgreSQL text with NULLs, between blank lines that are skipped. -/
def sparsePostgres : FormatOptions where
  dialect := .postgresCopyCsv
  nulls := .postgresCsv
  blankRecords := .skip

/-- An absent and an empty field come back. -/
theorem nullable_roundTrip_postgres :
    SliceParser.records (reader sparsePostgres) none [44, 34, 34, 10] =
      .ok [[Field.ofOption none, Field.ofOption (some [])]] := by
  have hst : DocumentStands sparsePostgres.toFormatSettings [[none, some []]] :=
    .of_quotes rfl (by decide) (by decide) (by decide)
  exact nullable_roundTrip sparsePostgres (by decide) (by decide) .flexible false
    [[none, some []]] (by decide) (written sparsePostgres (by decide) [[none, some []]])
    (by decide) (reader sparsePostgres) ⟨rfl, rfl, rfl, by decide, rfl, rfl, by decide⟩
    (fun _ => nofun) hst fun _ _ => by decide

/-- A record of one absent field is lost as a blank line. -/
theorem nullable_roundTrip_lone :
    ¬ ∀ (o : FormatOptions) (valid : o.Valid), o.nulls ≠ .none →
      ∀ (fieldCount : FieldCount) (hasHeaders : Bool) (rows : List (List (Option Bytes))),
      [] ∉ rows →
      ∀ s : PushEmitter, PushEmitter.emitAll (PushEmitter.emitNullable none)
        (.new o.toFormatSettings valid fieldCount hasHeaders) rows = .ok s →
      ∀ cfg : ParserSettings, Untrimmed o cfg s.buffer.length →
        SliceParser.records cfg none s.buffer = .ok (rows.map (·.map Field.ofOption)) := by
  intro h
  have hread := h sparsePostgres (by decide) (by decide) .flexible false [[none]] (by decide)
    (written sparsePostgres (by decide) [[none]]) (by decide) (reader sparsePostgres)
    ⟨rfl, rfl, rfl, by decide, rfl, rfl, by decide⟩
  exact absurd hread (by decide)

end Coseva
