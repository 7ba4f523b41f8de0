/-
  Coseva — records deserialized with Serde (`coseva/src/serde/deserializer.rs` and
  `deserialized_line` of `coseva/src/engine/access.rs`), over the column cache.

  * `MapVisitor`: the visitor of a map or a struct, which takes a column as wanted,
    ignored or rejected by its header name;
  * `MapDeserializer`: the walk over the columns, which skips those that are learned
    and observes those that are discarded;
  * `SerdeSession`: a parser that deserializes one record after another;
  * `run_transparent`: a run gives what each record gives with a fresh cache.
-/
import Coseva.StructCache

namespace Coseva

/-! ## Errors -/

/-- `Location::UNKNOWN`. -/
def Location.unknown : Location := ⟨0, 0, 0, 0⟩

/-- The kinds of an error on the Serde path. -/
inductive SerdeErrorKind
  | fieldCountMismatch (expected actual : ℕ)
  /-- `ErrorKind::Serde` with its text -/
  | serde (detail : String)
  | invalidUtf8 (error : Utf8Error)
  /-- an index out of range -/
  | panic
  deriving DecidableEq, Repr

/-- `Error`, of the Serde path. -/
structure SerdeError where
  kind : SerdeErrorKind
  location : Location := .unknown
  fieldName : Option Bytes := none
  deriving DecidableEq, Repr

namespace SerdeError

/-- `Error::field`, without a name. -/
def atField (kind : SerdeErrorKind) (index : ℕ) : SerdeError :=
  { kind, location := { Location.unknown with field := index } }

/-- `with_field_index`. -/
def withFieldIndex (e : SerdeError) (index : ℕ) : SerdeError :=
  { e with location := { e.location with field := index } }

/-- `with_field_name`. -/
def withFieldName (e : SerdeError) (name : Bytes) : SerdeError := { e with fieldName := some name }

/-- `Error::at`. -/
def located (e : SerdeError) (location : Location) : SerdeError :=
  { e with location := { location with field := e.location.field } }

end SerdeError

/-- The text of a `Utf8Error`. -/
def Utf8Error.text (e : Utf8Error) : String :=
  match e.errorLen with
  | some len =>
    "invalid utf-8 sequence of " ++ toString len ++ " bytes from index " ++ toString e.validUpTo
  | none => "incomplete utf-8 byte sequence from index " ++ toString e.validUpTo

/-! ## Visitors -/

/-- The bytes of a field, and whether it is an explicit NULL. -/
abbrev RawField := Bytes × Bool

/-- What a visitor does with a column when it reads the column's key. -/
inductive Treatment
  /-- it asks for the value -/
  | wanted
  /-- it asks for the value with `deserialize_ignored_any` -/
  | ignored
  | rejected (error : SerdeError)
  deriving DecidableEq

/-- The visitor of a map or a struct: its `visit_map`, whose treatment of a column depends on
    the header name alone.  A column that it reads as a marker which takes any value is one
    that it ignores, with a state behind it that may be another. -/
structure MapVisitor (V : Type) where
  State : Type
  start : State
  /-- it returns without asking for another key -/
  stop : State → Option (Except SerdeError V)
  treat : Bytes → Treatment
  /-- a column that it wants: a check before it asks for the value, and the value of a field,
      or of none when the record is short -/
  want : State → Bytes → Except SerdeError (Option RawField → Except SerdeError State)
  /-- what it goes on with behind a column that it ignores -/
  discard : State → Bytes → State
  finish : State → Except SerdeError V

/-- How the target type asks the record deserializer for its value. -/
inductive Request (V : Type)
  /-- scalars, sequences, tuples, units and enums: the value of the fields alone -/
  | answer (result : Except SerdeError V)
  /-- `deserialize_option` -/
  | option (absent : Except SerdeError V) (present : Request V)
  /-- `deserialize_newtype_struct` -/
  | newtype (inner : Request V)
  /-- `deserialize_map` -/
  | map (visitor : MapVisitor V)
  /-- `deserialize_struct`, and its `visit_seq` for a record without headers -/
  | struct (name fields : StaticKey) (visitor : MapVisitor V) (seq : Except SerdeError V)

/-! ## The walk over the columns -/

/-- `MapDeserializer`. -/
structure MapDeserializer where
  cache : StructCache
  fields : List RawField
  column : ℕ
  skipping : Bool
  ignored : ℕ
  wideIgnored : List ℕ
  observing : Bool

namespace MapDeserializer

/-- `MapDeserializer::full`. -/
def full (cache : StructCache) (fields : List RawField) (skipping observing : Bool) :
    MapDeserializer where
  cache
  fields
  column := 0
  skipping
  ignored := cache.ignoredMask
  wideIgnored := cache.wideIgnored
  observing

/-- Past one column and its field. -/
def advance (m : MapDeserializer) : MapDeserializer :=
  { m with fields := m.fields.tail, column := m.column + 1 }

/-- The loop of `next_key_seed`, over at most the `count` columns that are left. -/
def skipIgnored : ℕ → MapDeserializer → MapDeserializer
  | 0, m => m
  | count + 1, m =>
    if m.skipping && decide (m.column < m.cache.columns) &&
        (maskContains m.ignored m.column || wideContains m.wideIgnored m.column) then
      skipIgnored count m.advance
    else m

/-- The key of a column whose name is valid. -/
def headerKey (m : MapDeserializer) : Except SerdeError (Option Bytes) :=
  match m.cache.names[m.column]? with
  | some key => .ok (some key)
  | none => .error { kind := .panic }

/-- `next_key_seed` behind its loop. -/
def currentKey (m : MapDeserializer) : Except SerdeError (Option Bytes) :=
  if m.cache.columns ≤ m.column then
    let trailing := m.fields.length
    if trailing ≠ 0 then
      .error (.atField (.fieldCountMismatch m.cache.columns (m.cache.columns + trailing))
        m.cache.columns)
    else .ok none
  else
    match m.cache.invalid with
    | some (column, error) =>
      if column ≤ m.column then
        .error { kind := .serde ("CSV header is not valid UTF-8: " ++ error.text) }
      else m.headerKey
    | none => m.headerKey

/-- `next_value_seed` of a column that the visitor ignores. -/
def nextIgnored (m : MapDeserializer) : MapDeserializer :=
  { m.advance with cache := if m.observing then m.cache.noteIgnored m.column else m.cache }

/-- `next_value_seed` of a column that the visitor wants. -/
def nextValue {S : Type} (m : MapDeserializer) (key : Bytes)
    (read : Option RawField → Except SerdeError S) : Except SerdeError S :=
  (read m.fields.head?).mapError fun e => (e.withFieldIndex m.column).withFieldName key

/-- `visit_map`, of at most `fuel` rounds: the value, and the cache that it leaves. -/
def visit {V : Type} (v : MapVisitor V) :
    ℕ → v.State → MapDeserializer → Option (Except SerdeError V × StructCache)
  | 0, _, _ => none
  | fuel + 1, s, m =>
    match v.stop s with
    | some result => some (result, m.cache)
    | none =>
      let m := skipIgnored (m.cache.columns - m.column) m
      match m.currentKey with
      | .error e => some (.error e, m.cache)
      | .ok none => some (v.finish s, m.cache)
      | .ok (some key) =>
        match v.treat key with
        | .rejected e => some (.error e, m.cache)
        | .ignored => visit v fuel (v.discard s key) m.nextIgnored
        | .wanted =>
          match v.want s key with
          | .error e => some (.error e, m.cache)
          | .ok read =>
            match m.nextValue key read with
            | .error e => some (.error e, m.cache)
            | .ok s => visit v fuel s m.advance

end MapDeserializer

/-! ## Records -/

/-- The error of `deserialize_map` for a record without headers. -/
def mapWithoutHeaders : SerdeError :=
  { kind := .serde ("cannot deserialize a map from a CSV record without headers; " ++
      "provide headers via ParseOptions or IoParser::deserialized") }

/-- `CsvDeserializer`, over the cache of the headers if there are any. -/
def Request.serve {V : Type} (fields : List RawField) :
    Request V → Option StructCache → Option (Except SerdeError V × Option StructCache)
  | .answer result, cache => some (result, cache)
  | .option absent present, cache =>
    if fields.length = 0 ∨ (fields.length = 1 ∧ fields.head?.any (·.2)) then some (absent, cache)
    else present.serve fields cache
  | .newtype inner, cache => inner.serve fields cache
  | .map _, none => some (.error mapWithoutHeaders, none)
  | .map visitor, some cache =>
    (MapDeserializer.visit visitor (cache.columns + 1) visitor.start
      (.full cache fields false false)).map fun (result, cache) => (result, some cache)
  | .struct _ _ _ seq, none => some (seq, none)
  | .struct name keys visitor _, some cache =>
    let (skipping, cache) := cache.beginStruct name keys
    (MapDeserializer.visit visitor (cache.columns + 1) visitor.start
      (.full cache fields skipping !skipping)).map fun (result, cache) => (result, some cache)

/-- The Serde state of a parser. -/
structure SerdeSession where
  headers : Option (List Bytes)
  ready : Bool
  cache : StructCache

namespace SerdeSession

variable {V : Type}

/-- A parser whose headers are known. -/
def new (headers : Option (List Bytes)) : SerdeSession := ⟨headers, false, .new⟩

/-- `prepare_deserialize`. -/
def prepare (s : SerdeSession) : SerdeSession :=
  if s.ready then s else { s with ready := true, cache := s.cache.sync s.headers }

/-- `deserialized_line`, of a target type and a record at `location`. -/
def deserializedLine (target : List RawField → Request V) (fields : List RawField)
    (location : Location) (s : SerdeSession) : Option (Except SerdeError V × SerdeSession) :=
  let s := s.prepare
  match (target fields).serve fields (if s.headers.isSome then some s.cache else none) with
  | none => none
  | some (.ok value, cache) => some (.ok value, { s with cache := (cache.getD s.cache).commit })
  | some (.error e, cache) => some (.error (e.located location), { s with cache := cache.getD s.cache })

/-- What happens to a parser: a record is deserialized, or the parser is taken back, after
    which its headers are looked at again. -/
inductive Event (V : Type)
  | record (target : List RawField → Request V) (fields : List RawField) (location : Location)
  | rewind

/-- What the records of a run give. -/
def run : SerdeSession → List (Event V) → Option (List (Except SerdeError V))
  | _, [] => some []
  | s, .rewind :: events => run { s with ready := false } events
  | s, .record target fields location :: events =>
    match s.deserializedLine target fields location with
    | none => none
    | some (result, s) => (result :: ·) <$> run s events

/-- What the records give, each with a cache of its own. -/
def fresh (headers : Option (List Bytes)) : List (Event V) → Option (List (Except SerdeError V))
  | [] => some []
  | .rewind :: events => fresh headers events
  | .record target fields location :: events =>
    match (new headers).deserializedLine target fields location with
    | none => none
    | some (result, _) => (result :: ·) <$> fresh headers events

end SerdeSession

/-! ## Skipping and not skipping -/

/-- The visitor discards the column of a name, and goes on as if it had not been there. -/
def MapVisitor.Harmless {V : Type} (v : MapVisitor V) (key : Bytes) : Prop :=
  v.treat key = .ignored ∧ ∀ s, v.discard s key = s

namespace MapDeserializer

variable {V : Type} {v : MapVisitor V}

/-- The walk is at a column that it skips. -/
def AtSkipped (m : MapDeserializer) : Prop :=
  (m.skipping && decide (m.column < m.cache.columns) &&
    (maskContains m.ignored m.column || wideContains m.wideIgnored m.column)) = true

theorem skipIgnored_skipped {m : MapDeserializer} (h : m.AtSkipped) :
    skipIgnored (m.cache.columns - m.column) m =
      skipIgnored (m.advance.cache.columns - m.advance.column) m.advance := by
  have hlt : m.column < m.cache.columns := by
    rw [AtSkipped, Bool.and_eq_true, Bool.and_eq_true] at h
    exact of_decide_eq_true h.1.2
  obtain ⟨count, hcount⟩ := Nat.exists_eq_add_of_lt hlt
  have hleft : m.cache.columns - m.column = count + 1 := by omega
  have hright : m.advance.cache.columns - m.advance.column = count := by
    show m.cache.columns - (m.column + 1) = count
    omega
  rw [hleft, hright, skipIgnored]
  exact if_pos h

theorem skipIgnored_stays {m : MapDeserializer} (h : ¬ m.AtSkipped) (count : ℕ) :
    skipIgnored count m = m := by
  cases count with
  | zero => rfl
  | succ count => exact if_neg h

/-- Two walks are at the same column of the same record and headers. -/
structure Alike (m m' : MapDeserializer) : Prop where
  fields : m'.fields = m.fields
  column : m'.column = m.column
  names : m'.cache.names = m.cache.names
  invalid : m'.cache.invalid = m.cache.invalid
  columns : m'.cache.columns = m.cache.columns

theorem Alike.currentKey {m m' : MapDeserializer} (h : Alike m m') : m'.currentKey = m.currentKey := by
  rw [MapDeserializer.currentKey, MapDeserializer.currentKey, headerKey, headerKey, h.fields,
    h.column, h.names, h.invalid, h.columns]

theorem Alike.advance {m m' : MapDeserializer} (h : Alike m m') : Alike m.advance m'.advance :=
  ⟨congrArg List.tail h.fields, congrArg (· + 1) h.column, h.names, h.invalid, h.columns⟩

/-- Discarding a column leaves the headers of the cache. -/
theorem nextIgnored_alike (m : MapDeserializer) : Alike m.advance m.nextIgnored := by
  unfold nextIgnored
  split_ifs
  · obtain ⟨observing, wide, heq, -⟩ := m.cache.noteIgnored_eq m.column
    rw [heq]
    exact ⟨rfl, rfl, rfl, rfl, rfl⟩
  · exact ⟨rfl, rfl, rfl, rfl, rfl⟩

theorem Alike.trans {a b c : MapDeserializer} (hab : Alike a b) (hbc : Alike b c) : Alike a c :=
  ⟨hbc.fields.trans hab.fields, hbc.column.trans hab.column, hbc.names.trans hab.names,
    hbc.invalid.trans hab.invalid, hbc.columns.trans hab.columns⟩

theorem Alike.symm {a b : MapDeserializer} (h : Alike a b) : Alike b a :=
  ⟨h.fields.symm, h.column.symm, h.names.symm, h.invalid.symm, h.columns.symm⟩

theorem nextIgnored_skipping (m : MapDeserializer) : m.nextIgnored.skipping = m.skipping := rfl

/-- A key belongs to a column of the header. -/
theorem currentKey_some {m : MapDeserializer} {key : Bytes} (h : m.currentKey = .ok (some key)) :
    m.column < m.cache.columns := by
  refine Nat.lt_of_not_le fun hle => ?_
  rw [MapDeserializer.currentKey, if_pos hle] at h
  simp only at h
  split_ifs at h
  cases h

/-- What the walk skips is harmless to the visitor. -/
structure SkipsHarmless (v : MapVisitor V) (m : MapDeserializer) : Prop where
  invalid : m.skipping = true → m.cache.invalid = none
  named : m.cache.invalid = none → m.cache.names.length = m.cache.columns
  harmless : m.skipping = true → ∀ column key,
    (maskContains m.ignored column || wideContains m.wideIgnored column) = true →
      m.cache.names[column]? = some key → v.Harmless key

theorem SkipsHarmless.advance {m : MapDeserializer} (h : SkipsHarmless v m) :
    SkipsHarmless v m.advance := ⟨h.invalid, h.named, h.harmless⟩

theorem SkipsHarmless.nextIgnored {m : MapDeserializer} (h : SkipsHarmless v m) :
    SkipsHarmless v m.nextIgnored := by
  unfold MapDeserializer.nextIgnored
  split_ifs
  · obtain ⟨observing, wide, heq, -⟩ := m.cache.noteIgnored_eq m.column
    rw [heq]
    exact ⟨h.invalid, h.named, h.harmless⟩
  · exact ⟨h.invalid, h.named, h.harmless⟩

/-- At a skipped column, the key is one that the visitor ignores without effect. -/
theorem SkipsHarmless.key {m : MapDeserializer} (h : SkipsHarmless v m) (hskip : m.AtSkipped) :
    ∃ key, m.currentKey = .ok (some key) ∧ v.Harmless key ∧ m.column < m.cache.columns := by
  rw [AtSkipped, Bool.and_eq_true, Bool.and_eq_true] at hskip
  obtain ⟨⟨hskipping, hlt⟩, hmask⟩ := hskip
  have hlt : m.column < m.cache.columns := of_decide_eq_true hlt
  have hinvalid := h.invalid hskipping
  have hin : m.column < m.cache.names.length := by rwa [h.named hinvalid]
  have hget := List.getElem?_eq_getElem hin
  refine ⟨_, ?_, h.harmless hskipping _ _ hmask hget, hlt⟩
  rw [currentKey, if_neg (Nat.not_le.2 hlt), hinvalid]
  show m.headerKey = _
  rw [headerKey, hget]

/-- **Skipping harmless columns** does not change what the visitor comes to. -/
theorem visit_skipping (left : ℕ) {m m' : MapDeserializer} (halike : Alike m m')
    (hskips : SkipsHarmless v m) (hnot : m'.skipping = false) (s : v.State) (fuel fuel' : ℕ)
    (hleft : m.cache.columns - m.column = left) (hfuel : left < fuel) (hfuel' : left < fuel') :
    ∃ result cache cache', visit v fuel s m = some (result, cache) ∧
      visit v fuel' s m' = some (result, cache') := by
  induction left using Nat.strong_induction_on generalizing m m' s fuel fuel' with
  | _ left ih =>
  obtain ⟨fuel, rfl⟩ := Nat.exists_eq_add_of_lt (Nat.zero_lt_of_lt hfuel)
  obtain ⟨fuel', rfl⟩ := Nat.exists_eq_add_of_lt (Nat.zero_lt_of_lt hfuel')
  have hstays : ¬ m'.AtSkipped := by
    rw [AtSkipped, hnot]
    exact Bool.false_ne_true
  rw [Nat.zero_add] at hfuel hfuel' ⊢
  rw [Nat.zero_add, visit, visit]
  rcases hstop : v.stop s with _ | result
  case some => exact ⟨result, _, _, rfl, rfl⟩
  simp only
  by_cases hskip : m.AtSkipped
  · -- the one walk passes the column, the other one discards it
    obtain ⟨key, hkey, hharmless, hlt⟩ := hskips.key hskip
    obtain ⟨result, cache, cache', hvisit, hvisit'⟩ :=
      ih (left - 1) (by omega) (halike.advance.trans (nextIgnored_alike m')) hskips.advance
        ((nextIgnored_skipping m').trans hnot) s (fuel + 1) fuel'
        (by show m.cache.columns - (m.column + 1) = left - 1; omega) (by omega) (by omega)
    refine ⟨result, cache, cache', ?_, ?_⟩
    · rw [skipIgnored_skipped hskip, ← hvisit, visit, hstop]
    · rw [skipIgnored_stays hstays, halike.currentKey, hkey]
      simp only [hharmless.1, hharmless.2]
      exact hvisit'
  · rw [skipIgnored_stays hskip, skipIgnored_stays hstays, halike.currentKey]
    rcases hkey : m.currentKey with e | _ | key
    · exact ⟨_, _, _, rfl, rfl⟩
    · exact ⟨_, _, _, rfl, rfl⟩
    have hlt := currentKey_some hkey
    simp only
    rcases v.treat key with _ | _ | e
    · simp only
      rcases v.want s key with e | read
      · exact ⟨_, _, _, rfl, rfl⟩
      simp only [nextValue, halike.fields, halike.column]
      rcases (read m.fields.head?).mapError _ with e | next
      · exact ⟨_, _, _, rfl, rfl⟩
      · exact ih (left - 1) (by omega) halike.advance hskips.advance hnot next fuel fuel'
          (by show m.cache.columns - (m.column + 1) = left - 1; omega) (by omega) (by omega)
    · exact ih (left - 1) (by omega)
        ((nextIgnored_alike m).symm.trans (halike.advance.trans (nextIgnored_alike m')))
        hskips.nextIgnored ((nextIgnored_skipping m').trans hnot) (v.discard s key) fuel fuel'
        (by rw [(nextIgnored_alike m).columns, (nextIgnored_alike m).column]
            show m.cache.columns - (m.column + 1) = left - 1; omega) (by omega) (by omega)
    · exact ⟨_, _, _, rfl, rfl⟩


/-! ## What a walk does to the cache -/

theorem skipIgnored_cache (count : ℕ) (m : MapDeserializer) :
    (skipIgnored count m).cache = m.cache ∧ (skipIgnored count m).observing = m.observing := by
  induction count generalizing m with
  | zero => exact ⟨rfl, rfl⟩
  | succ count ih =>
    rw [skipIgnored]
    split_ifs
    · exact ih m.advance
    · exact ⟨rfl, rfl⟩

/-- What a walk leaves of the cache: all but the observation, to which it adds columns that
    the visitor ignores. -/
structure Walked (v : MapVisitor V) (c c' : StructCache) : Prop where
  header : (c'.names, c'.invalid, c'.columns) = (c.names, c.invalid, c.columns)
  key : (c'.keyName, c'.keyFields) = (c.keyName, c.keyFields)
  active : c'.active = c.active
  skips : c'.skips = c.skips
  observes : ∀ column, c'.observes column = true → c.observes column = true ∨
    ∃ key, c.names[column]? = some key ∧ v.treat key = .ignored

theorem Walked.refl (c : StructCache) : Walked v c c :=
  ⟨rfl, rfl, rfl, rfl, fun _ h => Or.inl h⟩

theorem Walked.trans {c c' c'' : StructCache} (h : Walked v c c') (h' : Walked v c' c'') :
    Walked v c c'' := by
  refine ⟨h'.header.trans h.header, h'.key.trans h.key, h'.active.trans h.active,
    h'.skips.trans h.skips, fun column hc => ?_⟩
  rcases h'.observes column hc with hc | ⟨key, hkey, htreat⟩
  · exact h.observes column hc
  · have hnames : c'.names = c.names := congrArg Prod.fst h.header
    exact Or.inr ⟨key, hnames ▸ hkey, htreat⟩

/-- The key of a column is its name in the header. -/
theorem currentKey_name {m : MapDeserializer} {key : Bytes} (h : m.currentKey = .ok (some key)) :
    m.cache.names[m.column]? = some key := by
  have hread : m.headerKey = .ok (some key) → m.cache.names[m.column]? = some key := by
    intro hread
    rw [headerKey] at hread
    split at hread
    · rename_i name hname
      rw [hname, Option.some.inj (Except.ok.inj hread)]
    · cases hread
  rw [currentKey, if_neg (Nat.not_le.2 (currentKey_some h))] at h
  split at h
  · split_ifs at h
    exact hread h
  · exact hread h

theorem nextIgnored_walked {m : MapDeserializer} {key : Bytes}
    (hkey : m.currentKey = .ok (some key)) (htreat : v.treat key = .ignored) :
    Walked v m.cache m.nextIgnored.cache := by
  unfold nextIgnored
  simp only
  split_ifs
  · have hskips := m.cache.skips_noteIgnored m.column
    have hobserves := m.cache.observes_noteIgnored m.column
    obtain ⟨observing, wide, heq, -⟩ := m.cache.noteIgnored_eq m.column
    rw [heq] at hskips hobserves ⊢
    refine ⟨rfl, rfl, rfl, hskips, fun column hc => ?_⟩
    rcases hobserves column hc with rfl | hc
    · exact Or.inr ⟨key, currentKey_name hkey, htreat⟩
    · exact Or.inl hc
  · exact .refl _

/-- What the columns that a visitor ignores do to the cache, one after another, its walk does. -/
theorem visit_cache (v : MapVisitor V) {observing : Bool} {R : StructCache → StructCache → Prop}
    (hrefl : ∀ c, R c c) (htrans : ∀ c c' c'', R c c' → R c' c'' → R c c'')
    (hstep : ∀ (m : MapDeserializer) key, m.currentKey = .ok (some key) →
      v.treat key = .ignored → m.observing = observing → R m.cache m.nextIgnored.cache)
    (fuel : ℕ) (s : v.State) (m : MapDeserializer) (hobserving : m.observing = observing)
    {result : Except SerdeError V} {c : StructCache} (h : visit v fuel s m = some (result, c)) :
    R m.cache c := by
  induction fuel generalizing s m with
  | zero => cases h
  | succ fuel ih =>
    rw [visit] at h
    rcases hstop : v.stop s with _ | stopped
    case some =>
      rw [hstop] at h
      cases h
      exact hrefl _
    rw [hstop] at h
    simp only at h
    obtain ⟨hcache, hsame⟩ := skipIgnored_cache (m.cache.columns - m.column) m
    generalize skipIgnored (m.cache.columns - m.column) m = m' at h hcache hsame
    rw [hobserving] at hsame
    rw [← hcache]
    rcases hkey : m'.currentKey with e | _ | key
    · rw [hkey] at h
      cases h
      exact hrefl _
    · rw [hkey] at h
      cases h
      exact hrefl _
    rw [hkey] at h
    simp only at h
    rcases htreat : v.treat key with _ | _ | e
    · rw [htreat] at h
      simp only at h
      rcases hwant : v.want s key with e | read
      · rw [hwant] at h
        cases h
        exact hrefl _
      rw [hwant] at h
      simp only at h
      rcases hread : m'.nextValue key read with e | next
      · rw [hread] at h
        cases h
        exact hrefl _
      · rw [hread] at h
        exact ih next m'.advance hsame h
    · rw [htreat] at h
      exact htrans _ _ _ (hstep m' key hkey htreat hsame) (ih _ m'.nextIgnored hsame h)
    · rw [htreat] at h
      cases h
      exact hrefl _

/-- **A walk** keeps the header, the key and what is learned. -/
theorem visit_walked (fuel : ℕ) (s : v.State) (m : MapDeserializer) {result : Except SerdeError V}
    {c : StructCache} (h : visit v fuel s m = some (result, c)) : Walked v m.cache c :=
  visit_cache v Walked.refl (fun _ _ _ => Walked.trans)
    (fun _ _ hkey htreat _ => nextIgnored_walked hkey htreat) fuel s m rfl h

/-- A walk that does not observe leaves the cache. -/
theorem visit_unobserved (fuel : ℕ) (s : v.State) (m : MapDeserializer)
    (hobserving : m.observing = false) {result : Except SerdeError V} {c : StructCache}
    (h : visit v fuel s m = some (result, c)) : m.cache = c :=
  visit_cache v (fun _ => rfl) (fun _ _ _ => Eq.trans)
    (fun m _ _ _ hfalse => by rw [nextIgnored, hfalse]; rfl) fuel s m hobserving h

end MapDeserializer

/-! ## Struct records -/

variable {V : Type}

/-- What a struct asks for: its static name and field list, and its visitor. -/
structure StructRequest (V : Type) where
  name : StaticKey
  fields : StaticKey
  visitor : MapVisitor V

/-- The struct that a record is read as, past options and newtypes. -/
def Request.asks (fields : List RawField) : Request V → Option (StructRequest V)
  | .answer _ | .map _ => none
  | .option _ present =>
    if fields.length = 0 ∨ (fields.length = 1 ∧ fields.head?.any (·.2)) then none
    else present.asks fields
  | .newtype inner => inner.asks fields
  | .struct name keys visitor _ => some ⟨name, keys, visitor⟩

/-- What a cache would skip of the header is harmless to the struct. -/
def StructRequest.HarmlessIn (q : StructRequest V) (c : StructCache) : Prop :=
  (c.beginStruct q.name q.fields).1 = true → ∀ column key, c.skips column = true →
    c.names[column]? = some key → q.visitor.Harmless key

/-- A valid header has a name for every column. -/
theorem StructCache.Synced.named {headers : List Bytes} {c : StructCache} (h : c.Synced headers)
    (hvalid : c.invalid = none) : c.names.length = c.columns := by
  have hnames := h.names
  rw [hvalid] at hnames
  rw [headerNames_valid hnames.symm, h.columns]

theorem StructCache.Synced.commit {headers : List Bytes} {c : StructCache} (h : c.Synced headers) :
    c.commit.Synced headers := by
  unfold StructCache.commit
  split_ifs
  · exact ⟨h.names, h.columns⟩
  · exact h

/-- **A record** gives the same with what is learned as with a cache that has learned
    nothing. -/
theorem Request.serve_agrees (r : Request V) (fields : List RawField) {headers : List Bytes}
    {c c' : StructCache} (hsync : c.Synced headers) (hsync' : c'.Synced headers)
    (hfresh : c'.learned = false)
    (hharmless : ∀ q, r.asks fields = some q → q.HarmlessIn c) :
    ∃ result cache cache', r.serve fields (some c) = some (result, some cache) ∧
      r.serve fields (some c') = some (result, some cache') := by
  have hnames : (c'.names, c'.invalid) = (c.names, c.invalid) := hsync'.names.trans hsync.names.symm
  have hcolumns : c'.columns = c.columns := hsync'.columns.trans hsync.columns.symm
  obtain ⟨hnames, hinvalid⟩ := Prod.mk.inj hnames
  induction r with
  | answer result => exact ⟨result, c, c', rfl, rfl⟩
  | option absent present ih =>
    rw [serve, serve]
    rw [asks] at hharmless
    split_ifs
    · exact ⟨absent, c, c', rfl, rfl⟩
    · rename_i hpresent
      rw [if_neg hpresent] at hharmless
      exact ih hharmless
  | newtype inner ih => exact ih hharmless
  | map visitor =>
    have halike : MapDeserializer.Alike (.full c fields false false) (.full c' fields false false) :=
      ⟨rfl, rfl, hnames, hinvalid, hcolumns⟩
    have hskipping : MapDeserializer.SkipsHarmless visitor (.full c fields false false) :=
      ⟨nofun, hsync.named, nofun⟩
    obtain ⟨result, cache, cache', hvisit, hvisit'⟩ :=
      MapDeserializer.visit_skipping c.columns halike hskipping rfl visitor.start
        (c.columns + 1) (c'.columns + 1) rfl (Nat.lt_succ_self _)
        (by rw [hcolumns]; exact Nat.lt_succ_self _)
    exact ⟨result, cache, cache', by rw [serve, hvisit]; rfl, by rw [serve, hvisit']; rfl⟩
  | struct name keys visitor seq =>
    obtain ⟨-, -, hheader, hskips, hbegin⟩ := c.beginStruct_eq name keys
    obtain ⟨-, -, hheader', -, hbegin'⟩ := c'.beginStruct_eq name keys
    have hobserve := c'.beginStruct_fresh name keys hfresh
    have hall := hharmless _ rfl
    rw [StructRequest.HarmlessIn] at hall
    simp only [serve]
    generalize c.beginStruct name keys = r at hheader hskips hbegin hall ⊢
    generalize c'.beginStruct name keys = r' at hheader' hbegin' hobserve ⊢
    obtain ⟨skipping, d⟩ := r
    obtain ⟨skipping', d'⟩ := r'
    cases hobserve
    simp only [Prod.mk.injEq] at hheader hheader'
    obtain ⟨hdnames, hdinvalid, hdcolumns⟩ := hheader
    obtain ⟨hdnames', hdinvalid', hdcolumns'⟩ := hheader'
    have halike : MapDeserializer.Alike (.full d fields skipping !skipping)
        (.full d' fields false true) :=
      ⟨rfl, rfl, hdnames'.trans (hnames.trans hdnames.symm),
        hdinvalid'.trans (hinvalid.trans hdinvalid.symm),
        hdcolumns'.trans (hcolumns.trans hdcolumns.symm)⟩
    have hskipping : MapDeserializer.SkipsHarmless visitor (.full d fields skipping !skipping) := by
      refine ⟨fun hskip => ?_, fun hvalid => ?_, fun hskip column key hmask hkey => ?_⟩
      · obtain ⟨hsame, hvalid⟩ := (if_pos hskip).mp hbegin
        exact hdinvalid.trans hvalid
      · exact (congrArg List.length hdnames).trans
          ((hsync.named (hdinvalid.symm.trans hvalid)).trans hdcolumns.symm)
      · exact hall hskip column key (hskips column hmask).1 (hdnames ▸ hkey)
    obtain ⟨result, cache, cache', hvisit, hvisit'⟩ :=
      MapDeserializer.visit_skipping d.columns halike hskipping rfl visitor.start
        (d.columns + 1) (d'.columns + 1) rfl (Nat.lt_succ_self _)
        (by rw [hdcolumns, hdcolumns', hcolumns]; exact Nat.lt_succ_self _)
    exact ⟨result, cache, cache', by rw [hvisit]; rfl, by
      rw [show (!false) = true from rfl, hvisit']; rfl⟩

/-! ## Where the learned columns come from -/

/-- A struct of `past` under the key of the cache ignores the name of a column. -/
def Seen (past : List (StructRequest V)) (c : StructCache) (column : ℕ) : Prop :=
  ∃ q ∈ past, (q.name, q.fields) = (c.keyName, c.keyFields) ∧
    ∃ key, c.names[column]? = some key ∧ q.visitor.treat key = .ignored

/-- What the cache has learned and what it observes, structs of `past` ignore. -/
structure Learned (past : List (StructRequest V)) (c : StructCache) : Prop where
  skips : ∀ column, c.skips column = true → Seen past c column
  observes : c.active = true → ∀ column, c.observes column = true → Seen past c column

theorem Seen.mono {past past' : List (StructRequest V)} {c c' : StructCache} {column : ℕ}
    (h : Seen past c column) (hpast : past ⊆ past') (hnames : c'.names = c.names)
    (hkey : (c'.keyName, c'.keyFields) = (c.keyName, c.keyFields)) : Seen past' c' column := by
  obtain ⟨q, hq, hsame, hname⟩ := h
  exact ⟨q, hpast hq, hsame.trans hkey.symm, hnames.symm ▸ hname⟩

theorem Learned.mono {past past' : List (StructRequest V)} {c : StructCache} (h : Learned past c)
    (hpast : past ⊆ past') : Learned past' c :=
  ⟨fun column hc => (h.skips column hc).mono hpast rfl rfl,
    fun hactive column hc => (h.observes hactive column hc).mono hpast rfl rfl⟩

/-- A cache that has neither learned nor observed. -/
theorem Learned.blank (past : List (StructRequest V)) {c : StructCache} (hactive : c.active = false)
    (hskips : ∀ column, c.skips column = false) : Learned past c :=
  ⟨fun column hc => Bool.noConfusion (hc.symm.trans (hskips column)),
    fun hc => Bool.noConfusion (hc.symm.trans hactive)⟩

theorem Learned.commit {past : List (StructRequest V)} {c : StructCache} (h : Learned past c) :
    Learned past c.commit := by
  have hskips := c.skips_commit
  unfold StructCache.commit at hskips ⊢
  cases hactive : c.active with
  | false => exact h
  | true =>
    rw [if_pos hactive] at hskips
    rw [if_pos rfl]
    refine ⟨fun column hc => ?_, fun hc => Bool.noConfusion hc⟩
    rcases hskips column hc with ⟨-, hc⟩ | hc
    · exact (h.observes hactive column hc).mono (List.Subset.refl _) rfl rfl
    · exact (h.skips column hc).mono (List.Subset.refl _) rfl rfl

theorem Learned.walked {past : List (StructRequest V)} {q : StructRequest V} {c c' : StructCache}
    (h : Learned past c) (hwalk : MapDeserializer.Walked q.visitor c c') (hq : q ∈ past)
    (hkey : (q.name, q.fields) = (c.keyName, c.keyFields)) : Learned past c' := by
  have hnames : c'.names = c.names := congrArg Prod.fst hwalk.header
  refine ⟨fun column hc => ?_, fun hactive column hc => ?_⟩
  · rw [hwalk.skips] at hc
    exact (h.skips column hc).mono (List.Subset.refl _) hnames hwalk.key
  · rw [hwalk.active] at hactive
    rcases hwalk.observes column hc with hc | ⟨key, hname, htreat⟩
    · exact (h.observes hactive column hc).mono (List.Subset.refl _) hnames hwalk.key
    · exact ⟨q, hq, hkey.trans hwalk.key.symm, key, hnames.symm ▸ hname, htreat⟩

theorem Learned.beginStruct {past : List (StructRequest V)} {c : StructCache} (h : Learned past c)
    (name fields : StaticKey) : Learned past (c.beginStruct name fields).2 := by
  obtain ⟨hname, hfields, hheader, hskips, hbegin⟩ := c.beginStruct_eq name fields
  generalize c.beginStruct name fields = r at *
  obtain ⟨skipping, d⟩ := r
  refine ⟨fun column hc => ?_, fun hactive column hc => ?_⟩
  · obtain ⟨hc, hname', hfields'⟩ := hskips column hc
    exact (h.skips column hc).mono (List.Subset.refl _) (congrArg Prod.fst hheader)
      (Prod.ext (hname.trans hname'.symm) (hfields.trans hfields'.symm))
  · cases skipping with
    | true =>
      obtain ⟨rfl, -⟩ := hbegin
      exact h.observes hactive column hc
    | false => exact Bool.noConfusion (hc.symm.trans (hbegin.2 column))

/-- **A record** leaves a cache that has learned from the structs so far and its own. -/
theorem Request.serve_learned (r : Request V) (fields : List RawField) {headers : List Bytes}
    {past : List (StructRequest V)} {c cache : StructCache} {result : Except SerdeError V}
    (h : r.serve fields (some c) = some (result, some cache)) (hsync : c.Synced headers)
    (hlearned : Learned past c) (hasks : ∀ q, r.asks fields = some q → q ∈ past) :
    cache.Synced headers ∧ Learned past cache := by
  induction r with
  | answer result =>
    cases h
    exact ⟨hsync, hlearned⟩
  | option absent present ih =>
    rw [serve] at h
    rw [asks] at hasks
    split_ifs at h hasks
    · cases h
      exact ⟨hsync, hlearned⟩
    · exact ih h hasks
  | newtype inner ih => exact ih h hasks
  | map visitor =>
    rw [serve, Option.map_eq_some_iff] at h
    obtain ⟨⟨_, _⟩, hvisit, hsame⟩ := h
    cases hsame
    cases MapDeserializer.visit_unobserved _ _ _ rfl hvisit
    exact ⟨hsync, hlearned⟩
  | struct name keys visitor seq =>
    obtain ⟨hname, hkeys, hheader, -, -⟩ := c.beginStruct_eq name keys
    have hbegun := hlearned.beginStruct name keys
    simp only [serve] at h
    generalize c.beginStruct name keys = r at h hname hkeys hheader hbegun
    obtain ⟨skipping, d⟩ := r
    rw [Option.map_eq_some_iff] at h
    obtain ⟨⟨_, _⟩, hvisit, hsame⟩ := h
    cases hsame
    have hwalk := MapDeserializer.visit_walked _ _ _ hvisit
    refine ⟨?_, hbegun.walked (q := ⟨name, keys, visitor⟩) hwalk (hasks _ rfl)
      (Prod.ext hname.symm hkeys.symm)⟩
    have hfinal := hwalk.header.trans hheader
    simp only [Prod.mk.injEq] at hfinal
    exact ⟨(Prod.ext hfinal.1 hfinal.2.1).trans hsync.names, hfinal.2.2.trans hsync.columns⟩

theorem Request.serve_headerless (r : Request V) (fields : List RawField) :
    ∃ result, r.serve fields none = some (result, none) := by
  induction r with
  | answer result => exact ⟨result, rfl⟩
  | option absent present ih =>
    rw [serve]
    split_ifs
    · exact ⟨absent, rfl⟩
    · exact ih
  | newtype inner ih => exact ih
  | map visitor => exact ⟨_, rfl⟩
  | struct name keys visitor seq => exact ⟨seq, rfl⟩

/-! ## Runs -/

/-- The struct that an event reads a record as. -/
def SerdeSession.Event.asks : Event V → Option (StructRequest V)
  | .record target fields _ => (target fields).asks fields
  | .rewind => none

namespace SerdeSession

/-- The cache of a session holds its headers when it is ready, and has learned from the
    structs so far. -/
structure Tracks (past : List (StructRequest V)) (s : SerdeSession) : Prop where
  ready : s.ready = true → s.cache.Synced (s.headers.getD [])
  held : ∃ held, s.cache.Synced held
  learned : Learned past s.cache

theorem new_tracks (headers : Option (List Bytes)) : Tracks (V := V) [] (new headers) :=
  ⟨nofun, ⟨[], StructCache.new_synced⟩, .blank [] rfl StructCache.skips_new⟩

theorem Tracks.rewind {past : List (StructRequest V)} {s : SerdeSession} (h : Tracks past s) :
    Tracks past { s with ready := false } := ⟨nofun, h.held, h.learned⟩

theorem prepare_headers (s : SerdeSession) : s.prepare.headers = s.headers := by
  unfold prepare
  split_ifs
  · rfl
  · rfl

theorem Tracks.prepare {past : List (StructRequest V)} {s : SerdeSession} (h : Tracks past s) :
    s.prepare.cache.Synced (s.headers.getD []) ∧ Learned past s.prepare.cache := by
  unfold SerdeSession.prepare
  by_cases hready : s.ready = true
  · rw [if_pos hready]
    exact ⟨h.ready hready, h.learned⟩
  rw [if_neg hready]
  obtain ⟨held, hheld⟩ := h.held
  rcases s.headers with _ | headers
  · exact ⟨StructCache.new_synced, .blank past rfl StructCache.skips_new⟩
  · obtain ⟨hsync, hsame | ⟨hactive, hskips⟩⟩ := s.cache.sync_synced headers hheld
    · refine ⟨hsync, ?_⟩
      show Learned past (s.cache.sync (some headers))
      rw [hsame]
      exact h.learned
    · exact ⟨hsync, .blank past hactive hskips⟩

/-- What a record gives, and the cache it leaves, from what its request gives. -/
theorem deserializedLine_served {s : SerdeSession} {target : List RawField → Request V}
    {fields : List RawField} {result : Except SerdeError V} {cache : Option StructCache}
    (h : (target fields).serve fields
      (if s.prepare.headers.isSome then some s.prepare.cache else none) = some (result, cache))
    (location : Location) :
    ∃ c, (c = cache.getD s.prepare.cache ∨ c = (cache.getD s.prepare.cache).commit) ∧
      s.deserializedLine target fields location =
        some (result.mapError (·.located location), { s.prepare with cache := c }) := by
  unfold deserializedLine
  simp only [h]
  rcases result with e | value
  · exact ⟨_, Or.inl rfl, rfl⟩
  · exact ⟨_, Or.inr rfl, rfl⟩

/-- A session after a record, committed or not. -/
theorem Tracks.record {past : List (StructRequest V)} {s : SerdeSession} {cache c : StructCache}
    (hsync : cache.Synced (s.headers.getD [])) (hlearned : Learned past cache)
    (h : c = cache ∨ c = cache.commit) : Tracks past { s with cache := c } := by
  rcases h with rfl | rfl
  · exact ⟨fun _ => hsync, ⟨_, hsync⟩, hlearned⟩
  · exact ⟨fun _ => hsync.commit, ⟨_, hsync.commit⟩, hlearned.commit⟩

/-- **A record** of a session gives what it gives with a fresh cache, if what the cache would
    skip is harmless. -/
theorem deserializedLine_agrees {past : List (StructRequest V)} {s : SerdeSession}
    (h : Tracks past s) (target : List RawField → Request V) (fields : List RawField)
    (location : Location)
    (hharmless : ∀ q, (target fields).asks fields = some q → q.HarmlessIn s.prepare.cache) :
    ∃ result s' s'', s.deserializedLine target fields location = some (result, s') ∧
      (new s.headers).deserializedLine target fields location = some (result, s'') ∧
      s'.headers = s.headers ∧
      Tracks (((target fields).asks fields).toList ++ past) s' := by
  obtain ⟨hsync, hlearned⟩ := h.prepare
  have hheaders := s.prepare_headers
  have hlearned := hlearned.mono
    (List.subset_append_right ((target fields).asks fields).toList past)
  have hasks : ∀ q, (target fields).asks fields = some q →
      q ∈ ((target fields).asks fields).toList ++ past := by
    intro q hq
    exact List.mem_append_left _ (Option.mem_toList.2 hq)
  cases hsome : s.headers with
  | none =>
    obtain ⟨result, hserve⟩ := (target fields).serve_headerless fields
    have hserved : (target fields).serve fields
        (if s.prepare.headers.isSome then some s.prepare.cache else none) = some (result, none) := by
      rw [hheaders, hsome]
      exact hserve
    obtain ⟨c, hc, hline⟩ := deserializedLine_served hserved location
    have hserved' : (target fields).serve fields
        (if (new none).prepare.headers.isSome then some (new none).prepare.cache else none) =
          some (result, none) := hserve
    obtain ⟨c', -, hline'⟩ := deserializedLine_served hserved' location
    exact ⟨_, _, _, hline, hline', hheaders.trans hsome, .record (hheaders ▸ hsync) hlearned hc⟩
  | some headers =>
    rw [hsome] at hsync hheaders
    obtain ⟨hsync', -⟩ := (new_tracks (V := V) (some headers)).prepare
    have hfresh : (new (some headers)).prepare.cache.learned = false :=
      StructCache.new_sync_learned headers
    obtain ⟨result, cache, cache', hserve, hserve'⟩ :=
      (target fields).serve_agrees fields hsync hsync' hfresh hharmless
    obtain ⟨hsync, hlearned⟩ := (target fields).serve_learned fields hserve hsync hlearned hasks
    have hserved : (target fields).serve fields
        (if s.prepare.headers.isSome then some s.prepare.cache else none) =
          some (result, some cache) := by
      rw [hheaders]
      exact hserve
    have hserved' : (target fields).serve fields
        (if (new (some headers)).prepare.headers.isSome then some (new (some headers)).prepare.cache
          else none) = some (result, some cache') := hserve'
    obtain ⟨c, hc, hline⟩ := deserializedLine_served hserved location
    obtain ⟨c', -, hline'⟩ := deserializedLine_served hserved' location
    exact ⟨_, _, _, hline, hline', hheaders, .record (hheaders ▸ hsync) hlearned hc⟩

/-- At each record of a run, what the cache would skip is harmless to the struct it is read
    as. -/
def Harmless : SerdeSession → List (Event V) → Prop
  | _, [] => True
  | s, .rewind :: events => Harmless { s with ready := false } events
  | s, .record target fields location :: events =>
    (∀ q, (target fields).asks fields = some q → q.HarmlessIn s.prepare.cache) ∧
      ∀ result s', s.deserializedLine target fields location = some (result, s') →
        Harmless s' events

/-- What a struct ignores of the header is harmless to each struct behind it with the same
    static name and field list. -/
def Compatible (headers : List Bytes) (p q : StructRequest V) : Prop :=
  (p.name, p.fields) = (q.name, q.fields) → ∀ key ∈ headers, p.visitor.treat key = .ignored →
    q.visitor.Harmless key

theorem run_fresh {past : List (StructRequest V)} {s : SerdeSession} (events : List (Event V))
    (h : Tracks past s) (hharmless : Harmless s events) :
    ∃ results, s.run events = some results ∧ fresh s.headers events = some results := by
  induction events generalizing past s with
  | nil => exact ⟨[], rfl, rfl⟩
  | cons event events ih =>
    cases event with
    | rewind => exact ih h.rewind hharmless
    | record target fields location =>
      obtain ⟨hhere, hrest⟩ := hharmless
      obtain ⟨result, s', s'', hline, hline', hheaders, htracks⟩ :=
        deserializedLine_agrees h target fields location hhere
      obtain ⟨results, hrun, hfresh⟩ := ih htracks (hrest result s' hline)
      refine ⟨result :: results, ?_, ?_⟩
      · rw [run, hline]
        simp only [hrun]
        rfl
      · rw [fresh, hline']
        rw [hheaders] at hfresh
        simp only [hfresh]
        rfl

/-- A struct is harmless in a cache that has learned from structs it is compatible with. -/
theorem harmlessIn_of_compatible {headers : List Bytes} {past : List (StructRequest V)}
    {c : StructCache} {q : StructRequest V} (hsync : c.Synced headers) (hlearned : Learned past c)
    (h : ∀ p ∈ past, Compatible headers p q) : q.HarmlessIn c := by
  intro hskipping column key hskips hname
  obtain ⟨-, -, -, hkeys, hbegin⟩ := c.beginStruct_eq q.name q.fields
  obtain ⟨hsame, -⟩ := (if_pos hskipping).mp hbegin
  rw [hsame] at hkeys
  obtain ⟨-, hkeyName, hkeyFields⟩ := hkeys column hskips
  obtain ⟨p, hp, hkey, key', hname', htreat⟩ := hlearned.skips column hskips
  obtain rfl : key' = key := Option.some.inj (hname'.symm.trans hname)
  have hfront : c.names <+: headers := by
    rw [show c.names = (StructCache.headerNames 0 headers).1 from congrArg Prod.fst hsync.names]
    exact StructCache.headerNames_prefix 0 headers
  refine h p hp ?_ key' (hfront.subset (List.mem_of_getElem? hname)) htreat
  rw [hkey, hkeyName, hkeyFields]

theorem harmless_of_compatible {past : List (StructRequest V)} {s : SerdeSession}
    (events : List (Event V)) (h : Tracks past s)
    (hpast : ∀ p ∈ past, ∀ q ∈ events.filterMap Event.asks, Compatible (s.headers.getD []) p q)
    (hpairs : (events.filterMap Event.asks).Pairwise (Compatible (s.headers.getD []))) :
    Harmless s events := by
  induction events generalizing past s with
  | nil => trivial
  | cons event events ih =>
    cases event with
    | rewind => exact ih h.rewind hpast hpairs
    | record target fields location =>
      have hhere : ∀ q, (target fields).asks fields = some q → q.HarmlessIn s.prepare.cache := by
        intro q hq
        refine harmlessIn_of_compatible h.prepare.1 h.prepare.2 fun p hp => hpast p hp q ?_
        exact List.mem_filterMap.2 ⟨_, List.mem_cons_self, hq⟩
      refine ⟨hhere, fun result s' hline => ?_⟩
      obtain ⟨_, s'', _, hline', -, hheaders, htracks⟩ :=
        deserializedLine_agrees h target fields location hhere
      obtain ⟨-, rfl⟩ := Prod.mk.inj (Option.some.inj (hline.symm.trans hline'))
      refine ih htracks ?_ ?_
      · rw [hheaders]
        intro p hp q hq
        rcases List.mem_append.1 hp with hp | hp
        · have hasks : (Event.record target fields location).asks = some p :=
            Option.mem_toList.1 hp
          rw [List.filterMap_cons_some hasks, List.pairwise_cons] at hpairs
          exact hpairs.1 q hq
        · refine hpast p hp q ?_
          obtain ⟨event, hevent, hasks⟩ := List.mem_filterMap.1 hq
          exact List.mem_filterMap.2 ⟨event, List.mem_cons_of_mem _ hevent, hasks⟩
      · rw [hheaders]
        refine hpairs.sublist ?_
        exact (List.sublist_cons_self _ events).filterMap _

/-- **The cache of a parser is transparent** in every run in which what it would skip is
    harmless, and so in every run whose structs are compatible where they share a static name
    and field list. -/
theorem run_transparent (headers : Option (List Bytes)) (events : List (Event V)) :
    (Harmless (new headers) events →
      ∃ results, (new headers).run events = some results ∧
        fresh headers events = some results) ∧
    ((events.filterMap Event.asks).Pairwise (Compatible (headers.getD [])) →
      Harmless (new headers) events) :=
  ⟨run_fresh events (new_tracks headers),
    harmless_of_compatible events (new_tracks headers) nofun⟩

/-! ## Where learning shows -/

/-- The error that Serde gives for a field that is not there. -/
def missingField : SerdeError := { kind := .serde "missing field" }

/-- A struct of one field that takes bytes, and that denies unknown fields or not. -/
def oneField (name : Bytes) (strict : Bool) : MapVisitor Bytes where
  State := Option Bytes
  start := none
  stop := fun _ => none
  treat := fun key =>
    if key = name then .wanted
    else if strict then .rejected { kind := .serde "unknown field" }
    else .ignored
  want := fun s _ =>
    match s with
    | some _ => .error { kind := .serde "duplicate field" }
    | none => .ok fun field =>
      match field with
      | some (bytes, _) => .ok (some bytes)
      | none => .error missingField
  discard := fun s _ => s
  finish := fun s =>
    match s with
    | some bytes => .ok bytes
    | none => .error missingField

/-- A struct of one field that takes any value (`IgnoredAny`). -/
def anyField (name : Bytes) : MapVisitor Bytes where
  State := Bool
  start := false
  stop := fun _ => none
  treat := fun _ => .ignored
  want := fun s _ => .ok fun _ => .ok s
  discard := fun s key => s || key == name
  finish := fun s => if s then .ok [] else .error missingField

/-- A record that is read as a struct with a static name and field list. -/
def structRecord (visitor : MapVisitor Bytes) (fields : List RawField) : Event Bytes :=
  .record (fun _ => .struct ⟨8, 3⟩ ⟨16, 1⟩ visitor (.error missingField)) fields .unknown

/-- Two records that are read as the same struct, of which the second one skips a column. -/
theorem run_transparent_one_struct :
    ∃ results,
      (new (some [[120], [121]])).run
          [structRecord (oneField [120] false) [([49], false), ([50], false)],
            structRecord (oneField [120] false) [([51], false), ([52], false)]] = some results ∧
        fresh (some [[120], [121]])
          [structRecord (oneField [120] false) [([49], false), ([50], false)],
            structRecord (oneField [120] false) [([51], false), ([52], false)]] = some results := by
  refine (run_transparent _ _).1 ((run_transparent _ _).2 ?_)
  refine List.pairwise_pair.2 fun _ key _ htreat => ⟨htreat, fun s => rfl⟩

/-- A struct that denies unknown fields takes a column that another one with its name and field
    list ignored, and a field that takes any value is missing from the second record on. -/
theorem run_not_transparent :
    let header : List Bytes := [[120], [121]]
    let record : List RawField := [([49], false), ([50], false)]
    let unknown := SerdeError.located { kind := .serde "unknown field" } .unknown
    let events := [structRecord (oneField [120] false) record, structRecord (oneField [120] true) record]
    let again := [structRecord (anyField [120]) record, structRecord (anyField [120]) record]
    (new (some header)).run events = some [.ok [49], .ok [49]] ∧
    fresh (some header) events = some [.ok [49], .error unknown] ∧
    (new (some header)).run again = some [.ok [], .error (missingField.located .unknown)] ∧
    fresh (some header) again = some [.ok [], .ok []] :=
  ⟨rfl, rfl, rfl, rfl⟩

end SerdeSession

end Coseva
