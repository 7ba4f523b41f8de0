/-
  Coseva — what an engine keeps of its headers (`coseva/src/engine/headers.rs`).

  The lookup of the names, the mapping of the last decoded type and the column of the last
  filter are built on demand and kept until the headers change.

  * `EngineHeaders`: the headers alone, of which every call makes a new scan
    (`EngineHeaders.apply`);
  * `HeaderCache`: the headers with what is kept of them, and the calls of the engine
    (`HeaderCache.apply`);
  * `Fresh`: what is kept belongs to the headers that stand, which every call keeps
    (`apply_scans`);
  * `answers_scan`: **no call answers from headers that no longer stand**.
-/
import Coseva.HeaderResolve
import Coseva.Lib.Latch

namespace Coseva

open Run

/-! ## The headers -/

/-- Where the headers come from, and those that are settled. -/
structure EngineHeaders where
  consumeFirstRecord : Bool
  headersInitialized : Bool
  headerRecord : Option HeaderRecord

/-- `Headers`, with a record as an engine keeps it. -/
inductive HeaderPolicy
  | none
  | firstRecord
  | provided (record : HeaderRecord)

/-- `Column`: what a filter looks at. -/
inductive Column
  | index (index : ℕ)
  | name (name : Bytes)

/-- Why a call fails: with the error of the header record, with a type that does not meet the
    headers, or not at all (a walk that does not end). -/
inductive HeaderFault (ε : Type)
  | parse (error : ε)
  | decode (error : DecodeError)
  | stuck

/-- A call that settles the headers, asks for columns or changes the headers.  The record that
    the input has next is `first`. -/
inductive HeaderCall (ε : Type)
  /-- `headers` -/
  | headers (first : Except ε (Option HeaderRecord))
  | headerIndex (first : Except ε (Option HeaderRecord)) (name : Bytes)
  | headerIndices (first : Except ε (Option HeaderRecord)) (name : Bytes)
  /-- `resolve_optional_typed_mapping` -/
  | typedMapping (first : Except ε (Option HeaderRecord)) (names : List Bytes)
    (aliases : List (List Bytes))
  /-- `resolve_filter_column` -/
  | filterColumn (column : Column)
  /-- `ensure_headers_window`, with the record that the window settles -/
  | headersWindow (found : Except ε (Option HeaderRecord))
  | setHeaders (record : HeaderRecord)
  | resetHeaders
  /-- `reset_for` -/
  | resetFor (policy : HeaderPolicy)
  /-- `restore_cursor` -/
  | restoreCursor (headersInitialized : Bool)

/-- What a call answers. -/
inductive HeaderAnswer
  | headers (record : Option HeaderRecord)
  | column (column : Option ℕ)
  | columns (columns : List ℕ)
  | mapping (mapping : TypedMapping)
  | settled (settled : Bool)
  | done

namespace EngineHeaders

variable {ε : Type}

/-- The headers that a policy begins with. -/
def ofPolicy : HeaderPolicy → EngineHeaders
  | .none => ⟨false, true, .none⟩
  | .firstRecord => ⟨true, false, .none⟩
  | .provided record => ⟨false, true, record⟩

/-- `set_headers`. -/
def setHeaders (_ : EngineHeaders) (record : HeaderRecord) : EngineHeaders :=
  ⟨false, true, record⟩

/-- `reset_headers`. -/
def resetHeaders (s : EngineHeaders) : EngineHeaders :=
  if s.consumeFirstRecord then { s with headerRecord := none, headersInitialized := false } else s

/-- The headers are settled by the first record that is asked of them. -/
def settle (first : Except ε (Option HeaderRecord)) :
    EStateM (HeaderFault ε) EngineHeaders Unit := do
  let s ← get
  if s.headersInitialized then pure ()
  else if s.consumeFirstRecord then
    match first with
    | .error error => do
      set { s with headersInitialized := true }
      throw (.parse error)
    | .ok record => set { s with headersInitialized := true, headerRecord := record }
  else set { s with headersInitialized := true }

/-- The columns that carry a name: none without headers. -/
def columnsOf (s : EngineHeaders) (name : Bytes) : List ℕ :=
  s.headerRecord.elim [] fun headers => columns headers.fields name

/-- How a decoded type meets the headers, by a scan. -/
def mappingOf (s : EngineHeaders) (names : List Bytes) (aliases : List (List Bytes)) :
    Except DecodeError TypedMapping :=
  match s.headerRecord with
  | none => .ok .identity
  | some headers =>
    (resolveDecodeMapping headers names aliases).map (typedMappingFrom · headers.fields.length)

/-- `mappingOf`, of the headers that are settled then. -/
def typedMapping (first : Except ε (Option HeaderRecord)) (names : List Bytes)
    (aliases : List (List Bytes)) : EStateM (HeaderFault ε) EngineHeaders TypedMapping := do
  settle first
  let s ← get
  match s.mappingOf names aliases with
  | .error error => throw (.decode error)
  | .ok mapping => pure mapping

/-- The headers are settled by the record that a window `found`. -/
def settleWindow (found : Except ε (Option HeaderRecord)) :
    EStateM (HeaderFault ε) EngineHeaders Bool := do
  let s ← get
  if s.consumeFirstRecord then
    match found with
    | .error error => throw (.parse error)
    | .ok none => pure false
    | .ok (some record) => do
      set { s with headersInitialized := true, headerRecord := some record }
      pure true
  else do
    set { s with headersInitialized := true }
    pure true

/-- A call, of which nothing is kept but the headers. -/
def apply : HeaderCall ε → EStateM (HeaderFault ε) EngineHeaders HeaderAnswer
  | .headers first => do
    settle first
    let s ← get
    pure (.headers s.headerRecord)
  | .headerIndex first name => do
    settle first
    let s ← get
    pure (.column (s.columnsOf name).head?)
  | .headerIndices first name => do
    settle first
    let s ← get
    pure (.columns (s.columnsOf name))
  | .typedMapping first names aliases => .mapping <$> typedMapping first names aliases
  | .filterColumn (.index index) => pure (.column (some index))
  | .filterColumn (.name name) => do
    let s ← get
    pure (.column (s.columnsOf name).head?)
  | .headersWindow found => .settled <$> settleWindow found
  | .setHeaders record => do
    modify (·.setHeaders record)
    pure .done
  | .resetHeaders => do
    modify resetHeaders
    pure .done
  | .resetFor policy => do
    set (ofPolicy policy)
    pure .done
  | .restoreCursor headersInitialized => do
    modify ({ · with headersInitialized })
    pure .done

end EngineHeaders

/-! ## What is kept of them -/

/-- The fields of `Engine` that concern headers. -/
structure HeaderCache extends EngineHeaders where
  headerLookup : HeaderLookup
  headerLookupReady : Bool
  typedMapping : Option (List Bytes × List (List Bytes) × TypedMapping)
  filterColumn : Option (Bytes × ℕ)

namespace HeaderCache

variable {ε : Type}

/-- A call of an engine. -/
abbrev Call (ε α : Type) := EStateM (HeaderFault ε) HeaderCache α

/-- `on_headers_changed`, where `s` is what they have changed to. -/
def onHeadersChanged (c : HeaderCache) (s : EngineHeaders) : HeaderCache :=
  { s with
    headerLookup := c.headerLookup.clear
    headerLookupReady := false
    typedMapping := none
    filterColumn := none }

/-- An engine, which has kept nothing yet. -/
def new (policy : HeaderPolicy) : HeaderCache :=
  { EngineHeaders.ofPolicy policy with
    headerLookup := ⟨fun _ => none⟩
    headerLookupReady := false
    typedMapping := none
    filterColumn := none }

/-- `ensure_headers`. -/
def ensureHeaders (first : Except ε (Option HeaderRecord)) : Call ε Unit := do
  let c ← get
  if c.headersInitialized then pure ()
  else do
    set { c with headersInitialized := true }
    if c.consumeFirstRecord then
      match first with
      | .error error => throw (.parse error)
      | .ok record =>
        set (c.onHeadersChanged
          { c.toEngineHeaders with headersInitialized := true, headerRecord := record })
    else pure ()

/-- `ensure_header_lookup`. -/
def ensureHeaderLookup : Call ε Unit := do
  let c ← get
  if c.headerLookupReady then pure ()
  else
    match c.headerRecord with
    | none => set { c with headerLookupReady := true }
    | some headers =>
      match c.headerLookup.rebuild hashName headers with
      | none => throw .stuck
      | some headerLookup => set { c with headerLookupReady := true, headerLookup }

/-- `header_slots`. -/
def headerSlots (name : Bytes) : Call ε (Option HeaderSlots) := do
  ensureHeaderLookup
  let c ← get
  match c.headerRecord with
  | none => pure none
  | some headers =>
    match c.headerLookup.get hashName headers name with
    | none => throw .stuck
    | some slots => pure slots

/-- `cached_filter_column`. -/
def cachedFilterColumn (c : HeaderCache) (name : Bytes) : Option ℕ :=
  c.filterColumn.bind fun (cached, column) => if cached = name then some column else none

/-- `resolve_filter_column`. -/
def resolveFilterColumn : Column → Call ε (Option ℕ)
  | .index index => pure (some index)
  | .name name => do
    let c ← get
    match c.cachedFilterColumn name with
    | some column => pure (some column)
    | none => do
      let slots ← headerSlots name
      match slots.map HeaderSlots.first with
      | some column => do
        modify ({ · with filterColumn := some (name, column) })
        pure (some column)
      | none => pure none

/-- `cached_typed_mapping`. -/
def cachedTypedMapping (c : HeaderCache) (names : List Bytes) (aliases : List (List Bytes)) :
    Option TypedMapping :=
  c.typedMapping.bind fun (cachedNames, cachedAliases, mapping) =>
    if cachedNames = names ∧ cachedAliases = aliases then some mapping else none

/-- The source of `compute_typed_mapping`: by the lookup where a scan would be long. -/
def decodeMapping (headers : HeaderRecord) (names : List Bytes) (aliases : List (List Bytes)) :
    Call ε (Except DecodeError (List ℕ)) :=
  if wideMapping names.length headers.fields.length then do
    ensureHeaderLookup
    let c ← get
    match resolveDecodeMappingIndexed hashName headers c.headerLookup names aliases with
    | none => throw .stuck
    | some source => pure source
  else pure (resolveDecodeMapping headers names aliases)

/-- `compute_typed_mapping`. -/
def computeTypedMapping (names : List Bytes) (aliases : List (List Bytes)) :
    Call ε TypedMapping := do
  let c ← get
  match c.headerRecord with
  | none => pure .identity
  | some headers =>
    match ← decodeMapping headers names aliases with
    | .error error => throw (.decode error)
    | .ok source => pure (typedMappingFrom source headers.fields.length)

/-- `resolve_typed_mapping`, whose error takes the location of the cursor besides. -/
def resolveTypedMapping (first : Except ε (Option HeaderRecord)) (names : List Bytes)
    (aliases : List (List Bytes)) : Call ε TypedMapping := do
  ensureHeaders first
  let c ← get
  match c.cachedTypedMapping names aliases with
  | some mapping => pure mapping
  | none => do
    let mapping ← computeTypedMapping names aliases
    modify ({ · with typedMapping := some (names, aliases, mapping) })
    pure mapping

/-- `resolve_optional_typed_mapping`. -/
def resolveOptionalTypedMapping (first : Except ε (Option HeaderRecord)) (names : List Bytes)
    (aliases : List (List Bytes)) : Call ε TypedMapping := do
  let c ← get
  match if c.headersInitialized then c.cachedTypedMapping names aliases else none with
  | some mapping => pure mapping
  | none => do
    ensureHeaders first
    let c ← get
    if c.headerRecord.isNone then pure .identity else resolveTypedMapping first names aliases

/-- `ensure_headers_window`: whether the window `found` the headers. -/
def ensureHeadersWindow (found : Except ε (Option HeaderRecord)) : Call ε Bool := do
  let c ← get
  if c.consumeFirstRecord then
    match found with
    | .error error => throw (.parse error)
    | .ok none => pure false
    | .ok (some record) => do
      set (c.onHeadersChanged
        { c.toEngineHeaders with headersInitialized := true, headerRecord := some record })
      pure true
  else do
    set { c with headersInitialized := true }
    pure true

/-- `reset_headers`. -/
def resetHeaders (c : HeaderCache) : HeaderCache :=
  if c.consumeFirstRecord then c.onHeadersChanged c.toEngineHeaders.resetHeaders else c

/-- A call. -/
def apply : HeaderCall ε → Call ε HeaderAnswer
  | .headers first => do
    ensureHeaders first
    let c ← get
    pure (.headers c.headerRecord)
  | .headerIndex first name => do
    ensureHeaders first
    let slots ← headerSlots name
    pure (.column (slots.map HeaderSlots.first))
  | .headerIndices first name => do
    ensureHeaders first
    let slots ← headerSlots name
    pure (.columns (slots.elim [] HeaderSlots.asSlice))
  | .typedMapping first names aliases =>
    .mapping <$> resolveOptionalTypedMapping first names aliases
  | .filterColumn column => .column <$> resolveFilterColumn column
  | .headersWindow found => .settled <$> ensureHeadersWindow found
  | .setHeaders record => do
    modify fun c => c.onHeadersChanged (c.toEngineHeaders.setHeaders record)
    pure .done
  | .resetHeaders => do
    modify resetHeaders
    pure .done
  | .resetFor policy => do
    modify (·.onHeadersChanged (EngineHeaders.ofPolicy policy))
    pure .done
  | .restoreCursor headersInitialized => do
    modify ({ · with headersInitialized })
    pure .done

end HeaderCache

namespace HeaderSlots

/-- The first of the columns. -/
theorem ofColumns_first (columns : List ℕ) : (ofColumns columns).map first = columns.head? := by
  rcases columns with _ | ⟨_, _ | _⟩ <;> rfl

theorem ofColumns_asSlice (columns : List ℕ) : (ofColumns columns).elim [] asSlice = columns := by
  rcases columns with _ | ⟨_, _ | _⟩ <;> rfl

end HeaderSlots

namespace HeaderCache

variable {ε α β : Type}

/-- What is kept belongs to the headers that stand. -/
structure Fresh (c : HeaderCache) : Prop where
  lookup : c.headerLookupReady = true → ∀ headers, c.headerRecord = some headers →
    c.headerLookup.Files hashName headers headers.fields
  mapping : ∀ names aliases mapping, c.typedMapping = some (names, aliases, mapping) →
    c.mappingOf names aliases = .ok mapping
  column : ∀ name column, c.filterColumn = some (name, column) →
    (c.columnsOf name).head? = some column

/-- Nothing is kept of headers that have changed. -/
theorem fresh_onHeadersChanged (c : HeaderCache) (s : EngineHeaders) :
    (c.onHeadersChanged s).Fresh :=
  ⟨nofun, nofun, nofun⟩

/-- The call ends as the one on the headers alone, and what it has kept is fresh. -/
def Scans : EStateM.Result (HeaderFault ε) HeaderCache α →
    EStateM.Result (HeaderFault ε) EngineHeaders α → Prop
  | .ok a c, .ok b s => a = b ∧ c.toEngineHeaders = s ∧ c.Fresh
  | .error e c, .error f s => e = f ∧ c.toEngineHeaders = s ∧ c.Fresh
  | _, _ => False

/-- One part of a call behind the other. -/
theorem Scans.bind {x : Call ε α} {y : EStateM (HeaderFault ε) EngineHeaders α}
    {f : α → Call ε β} {g : α → EStateM (HeaderFault ε) EngineHeaders β} {c : HeaderCache}
    (h : Scans (x c) (y c.toEngineHeaders))
    (hf : ∀ a c', y c.toEngineHeaders = .ok a c'.toEngineHeaders → c'.Fresh →
      Scans (f a c') (g a c'.toEngineHeaders)) :
    Scans ((x >>= f) c) ((y >>= g) c.toEngineHeaders) := by
  rcases hx : x c with ⟨a, c'⟩ | ⟨e, c'⟩ <;>
    rcases hy : y c.toEngineHeaders with ⟨b, s⟩ | ⟨e', s⟩ <;> rw [hx, hy] at h
  · obtain ⟨rfl, rfl, hc'⟩ := h
    rw [bind_ok hx, bind_ok hy]
    exact hf a c' hy hc'
  · exact h.elim
  · exact h.elim
  · rw [bind_error hx, bind_error hy]
    exact h

theorem Scans.map {x : Call ε α} {y : EStateM (HeaderFault ε) EngineHeaders α} {c : HeaderCache}
    (h : Scans (x c) (y c.toEngineHeaders)) (f : α → β) :
    Scans ((f <$> x) c) ((f <$> y) c.toEngineHeaders) := by
  rcases hx : x c with ⟨a, c'⟩ | ⟨e, c'⟩ <;>
    rcases hy : y c.toEngineHeaders with ⟨b, s⟩ | ⟨e', s⟩ <;> rw [hx, hy] at h
  · rw [map_ok hx, map_ok hy]
    exact ⟨congrArg f h.1, h.2⟩
  · exact h.elim
  · exact h.elim
  · rw [map_error hx, map_error hy]
    exact h

variable {c : HeaderCache}

/-- The headers are settled as they are without the cache. -/
theorem ensureHeaders_scans (h : c.Fresh) (first : Except ε (Option HeaderRecord)) :
    Scans (ensureHeaders first c) (EngineHeaders.settle first c.toEngineHeaders) := by
  have hsettled : ({ c with headersInitialized := true } : HeaderCache).Fresh :=
    ⟨h.lookup, h.mapping, h.column⟩
  unfold ensureHeaders EngineHeaders.settle
  rw [get_bind, get_bind]
  by_cases hinitialized : c.headersInitialized = true
  · rw [if_pos hinitialized, if_pos hinitialized]
    exact ⟨rfl, rfl, h⟩
  rw [if_neg hinitialized, if_neg hinitialized, set_bind]
  by_cases hconsume : c.consumeFirstRecord = true
  · rw [if_pos hconsume, if_pos hconsume]
    rcases first with error | record
    · exact ⟨rfl, rfl, hsettled⟩
    · exact ⟨rfl, rfl, fresh_onHeadersChanged _ _⟩
  · rw [if_neg hconsume, if_neg hconsume]
    exact ⟨rfl, rfl, hsettled⟩

/-- The headers are those of `c`, and what is kept of them is fresh. -/
structure Keeps (c c' : HeaderCache) : Prop where
  headers : c'.toEngineHeaders = c.toEngineHeaders
  fresh : c'.Fresh

variable (ε) in
/-- The lookup is there once it is asked for, and its walks end. -/
theorem ensureHeaderLookup_ok (h : c.Fresh) : ∃ c', (ensureHeaderLookup c :
    EStateM.Result (HeaderFault ε) _ _) = .ok () c' ∧ Keeps c c' ∧ c'.headerLookupReady = true := by
  unfold ensureHeaderLookup
  rw [get_bind]
  by_cases hready : c.headerLookupReady = true
  · rw [if_pos hready]
    exact ⟨c, rfl, ⟨rfl, h⟩, hready⟩
  rw [if_neg hready]
  rcases hrecord : c.headerRecord with _ | headers
  · refine ⟨_, rfl, ⟨rfl, fun _ headers hheaders => ?_, h.mapping, h.column⟩, rfl⟩
    cases hrecord.symm.trans hheaders
  · obtain ⟨lookup, hbuild, hfiles⟩ := HeaderLookup.rebuild_files hashName headers c.headerLookup
    simp only [hbuild]
    refine ⟨_, rfl, ⟨rfl, fun _ headers' hheaders => ?_, h.mapping, h.column⟩, rfl⟩
    obtain rfl := Option.some.inj (hrecord.symm.trans hheaders)
    exact hfiles

variable (ε) in
/-- The slots of a name are those of the columns that carry it. -/
theorem headerSlots_ok (h : c.Fresh) (name : Bytes) : ∃ c', (headerSlots name c :
    EStateM.Result (HeaderFault ε) _ _) = .ok (HeaderSlots.ofColumns (c.columnsOf name)) c' ∧
      Keeps c c' := by
  obtain ⟨c', hensure, hkeeps, hready⟩ := ensureHeaderLookup_ok ε h
  refine ⟨c', ?_, hkeeps⟩
  unfold headerSlots
  rw [bind_ok hensure, get_bind]
  have hcolumns : c.columnsOf name = c'.columnsOf name := by rw [hkeeps.headers]
  rw [hcolumns]
  unfold EngineHeaders.columnsOf
  rcases hrecord : c'.headerRecord with _ | headers
  · rfl
  · have hget := (hkeeps.fresh.lookup hready headers hrecord).get (List.prefix_refl _) name
    simp only [hget]
    rfl

variable (ε) in
theorem resolveFilterColumn_ok (h : c.Fresh) (name : Bytes) :
    ∃ c', (resolveFilterColumn (.name name) c : EStateM.Result (HeaderFault ε) _ _) =
      .ok (c.columnsOf name).head? c' ∧ Keeps c c' := by
  rw [resolveFilterColumn, get_bind]
  rcases hcached : c.cachedFilterColumn name with _ | column
  · obtain ⟨c', hslots, hkeeps⟩ := headerSlots_ok ε h name
    simp only [bind_ok hslots]
    rw [HeaderSlots.ofColumns_first]
    rcases hcolumn : (c.columnsOf name).head? with _ | column
    · exact ⟨c', rfl, hkeeps⟩
    · refine ⟨_, rfl, hkeeps.headers, hkeeps.fresh.lookup, hkeeps.fresh.mapping, ?_⟩
      rintro name' column' hstored
      obtain ⟨rfl, rfl⟩ := Prod.mk.inj (Option.some.inj hstored)
      rw [← hcolumn, ← hkeeps.headers]
  · unfold cachedFilterColumn at hcached
    obtain ⟨⟨cached, column'⟩, hfilter, hsame⟩ := Option.bind_eq_some_iff.mp hcached
    simp only at hsame
    split_ifs at hsame with hname
    subst hname
    obtain rfl := Option.some.inj hsame
    exact ⟨c, congrArg (EStateM.Result.ok · c) (h.column _ _ hfilter).symm, rfl, h⟩

variable (ε) in
/-- Narrow or wide, a type meets the columns that the scan finds. -/
theorem decodeMapping_ok (h : c.Fresh) {headers : HeaderRecord}
    (hrecord : c.headerRecord = some headers) (names : List Bytes) (aliases : List (List Bytes)) :
    ∃ c', (decodeMapping headers names aliases c : EStateM.Result (HeaderFault ε) _ _) =
      .ok (resolveDecodeMapping headers names aliases) c' ∧ Keeps c c' := by
  unfold decodeMapping
  by_cases hwide : wideMapping names.length headers.fields.length = true
  · obtain ⟨c', hensure, hkeeps, hready⟩ := ensureHeaderLookup_ok ε h
    have hrecord' : c'.headerRecord = some headers := by rw [hkeeps.headers, hrecord]
    have hsource := resolveDecodeMappingIndexed_eq
      (hkeeps.fresh.lookup hready headers hrecord') names aliases
    refine ⟨c', ?_, hkeeps⟩
    rw [if_pos hwide, bind_ok hensure, get_bind, hsource]
    rfl
  · rw [if_neg hwide]
    exact ⟨c, rfl, rfl, h⟩

variable (ε) in
theorem computeTypedMapping_ok (h : c.Fresh) (names : List Bytes) (aliases : List (List Bytes)) :
    ∃ c', Keeps c c' ∧ (computeTypedMapping names aliases c :
      EStateM.Result (HeaderFault ε) _ _) =
        match c.mappingOf names aliases with
        | .error error => .error (.decode error) c'
        | .ok mapping => .ok mapping c' := by
  unfold computeTypedMapping EngineHeaders.mappingOf
  rw [get_bind]
  rcases hrecord : c.headerRecord with _ | headers
  · exact ⟨c, ⟨rfl, h⟩, rfl⟩
  · obtain ⟨c', hsource, hkeeps⟩ := decodeMapping_ok ε h hrecord names aliases
    refine ⟨c', hkeeps, ?_⟩
    simp only [bind_ok hsource]
    rcases resolveDecodeMapping headers names aliases with error | source <;> rfl

/-- A type that was met before meets the headers in the same way. -/
theorem mappingOf_of_cached (h : c.Fresh) {names : List Bytes} {aliases : List (List Bytes)}
    {mapping : TypedMapping} (hcached : c.cachedTypedMapping names aliases = some mapping) :
    c.mappingOf names aliases = .ok mapping := by
  unfold cachedTypedMapping at hcached
  obtain ⟨⟨names', aliases', mapping'⟩, hstored, hkept⟩ := Option.bind_eq_some_iff.mp hcached
  simp only at hkept
  split_ifs at hkept with hsame
  obtain ⟨rfl, rfl⟩ := hsame
  obtain rfl := Option.some.inj hkept
  exact h.mapping _ _ _ hstored

/-- The mapping is computed, or it is the one that is kept. -/
theorem resolveTypedMapping_ok (h : c.Fresh) (hsettled : c.headersInitialized = true)
    (first : Except ε (Option HeaderRecord)) (names : List Bytes) (aliases : List (List Bytes)) :
    ∃ c', Keeps c c' ∧ resolveTypedMapping first names aliases c =
      match c.mappingOf names aliases with
      | .error error => .error (.decode error) c'
      | .ok mapping => .ok mapping c' := by
  have hensure : ensureHeaders first c = .ok () c := by
    unfold ensureHeaders
    rw [get_bind, if_pos hsettled]
    rfl
  unfold resolveTypedMapping
  rw [bind_ok hensure, get_bind]
  rcases hcached : c.cachedTypedMapping names aliases with _ | mapping
  · obtain ⟨c', hkeeps, hcompute⟩ := computeTypedMapping_ok ε h names aliases
    simp only
    rcases hmapping : c.mappingOf names aliases with error | mapping <;> rw [hmapping] at hcompute
    · exact ⟨c', hkeeps, bind_error hcompute⟩
    · refine ⟨{ c' with typedMapping := some (names, aliases, mapping) },
        ⟨hkeeps.headers, hkeeps.fresh.lookup, ?_, hkeeps.fresh.column⟩, bind_ok hcompute⟩
      intro names' aliases' mapping' hstored
      simp only [Option.some.injEq, Prod.mk.injEq] at hstored
      obtain ⟨rfl, rfl, rfl⟩ := hstored
      exact (congrArg (EngineHeaders.mappingOf · names aliases) hkeeps.headers).trans hmapping
  · rw [mappingOf_of_cached h hcached]
    exact ⟨c, ⟨rfl, h⟩, rfl⟩

theorem settled_of_settle {first : Except ε (Option HeaderRecord)} {s s' : EngineHeaders}
    (h : EngineHeaders.settle first s = .ok () s') : s'.headersInitialized = true := by
  unfold EngineHeaders.settle at h
  rw [get_bind] at h
  by_cases hsettled : s.headersInitialized = true
  · rw [if_pos hsettled] at h
    cases h
    exact hsettled
  rw [if_neg hsettled] at h
  by_cases hconsume : s.consumeFirstRecord = true
  · rw [if_pos hconsume] at h
    rcases first with error | record <;> cases h
    rfl
  · rw [if_neg hconsume] at h
    cases h
    rfl

/-- A decoded type meets the headers as the scan finds, with a mapping that is kept or not. -/
theorem resolveOptionalTypedMapping_scans (h : c.Fresh) (first : Except ε (Option HeaderRecord))
    (names : List Bytes) (aliases : List (List Bytes)) :
    Scans (resolveOptionalTypedMapping first names aliases c)
      (EngineHeaders.typedMapping first names aliases c.toEngineHeaders) := by
  unfold resolveOptionalTypedMapping EngineHeaders.typedMapping
  rw [get_bind]
  generalize hkept : (if c.headersInitialized = true then c.cachedTypedMapping names aliases
    else none) = kept
  rcases kept with _ | mapping
  swap
  · -- the mapping that is kept is that of the headers which were settled for it
    split_ifs at hkept with hsettled
    have hsettle : EngineHeaders.settle first c.toEngineHeaders = .ok () c.toEngineHeaders := by
      unfold EngineHeaders.settle
      rw [get_bind, if_pos hsettled]
      rfl
    rw [bind_ok hsettle, get_bind, mappingOf_of_cached h hkept]
    exact ⟨rfl, rfl, h⟩
  · refine (ensureHeaders_scans h first).bind fun _ c' hsettle hc' => ?_
    rw [get_bind, get_bind]
    by_cases hnone : c'.headerRecord.isNone = true
    · rw [if_pos hnone]
      unfold EngineHeaders.mappingOf
      rw [Option.isNone_iff_eq_none.mp hnone]
      exact ⟨rfl, rfl, hc'⟩
    · rw [if_neg hnone]
      obtain ⟨c'', hkeeps, hresolve⟩ :=
        resolveTypedMapping_ok hc' (settled_of_settle hsettle) first names aliases
      rw [hresolve]
      rcases c'.mappingOf names aliases with error | mapping
      · exact ⟨rfl, hkeeps.headers, hkeeps.fresh⟩
      · exact ⟨rfl, hkeeps.headers, hkeeps.fresh⟩

/-- A window settles the headers as it does without the cache. -/
theorem ensureHeadersWindow_scans (h : c.Fresh) (found : Except ε (Option HeaderRecord)) :
    Scans (ensureHeadersWindow found c) (EngineHeaders.settleWindow found c.toEngineHeaders) := by
  unfold ensureHeadersWindow EngineHeaders.settleWindow
  rw [get_bind, get_bind]
  by_cases hconsume : c.consumeFirstRecord = true
  · rw [if_pos hconsume, if_pos hconsume]
    rcases found with error | _ | record
    · exact ⟨rfl, rfl, h⟩
    · exact ⟨rfl, rfl, h⟩
    · exact ⟨rfl, rfl, fresh_onHeadersChanged _ _⟩
  · rw [if_neg hconsume, if_neg hconsume]
    exact ⟨rfl, rfl, h.lookup, h.mapping, h.column⟩

/-- **Every call** answers as a scan of the headers that stand. -/
theorem apply_scans (h : c.Fresh) (call : HeaderCall ε) :
    Scans (apply call c) (EngineHeaders.apply call c.toEngineHeaders) := by
  cases call with
  | headers first =>
    exact (ensureHeaders_scans h first).bind fun _ c' _ hc' => ⟨rfl, rfl, hc'⟩
  | headerIndex first name =>
    refine (ensureHeaders_scans h first).bind fun _ c' _ hc' => ?_
    obtain ⟨c'', hslots, hkeeps⟩ := headerSlots_ok ε hc' name
    rw [bind_ok hslots, HeaderSlots.ofColumns_first]
    exact ⟨rfl, hkeeps.headers, hkeeps.fresh⟩
  | headerIndices first name =>
    refine (ensureHeaders_scans h first).bind fun _ c' _ hc' => ?_
    obtain ⟨c'', hslots, hkeeps⟩ := headerSlots_ok ε hc' name
    rw [bind_ok hslots, HeaderSlots.ofColumns_asSlice]
    exact ⟨rfl, hkeeps.headers, hkeeps.fresh⟩
  | typedMapping first names aliases =>
    exact (resolveOptionalTypedMapping_scans h first names aliases).map _
  | filterColumn column =>
    cases column with
    | index index => exact ⟨rfl, rfl, h⟩
    | name name =>
      obtain ⟨c', hcolumn, hkeeps⟩ := resolveFilterColumn_ok ε h name
      rw [apply, map_ok hcolumn]
      exact ⟨rfl, hkeeps.headers, hkeeps.fresh⟩
  | headersWindow found => exact (ensureHeadersWindow_scans h found).map _
  | setHeaders record => exact ⟨rfl, rfl, fresh_onHeadersChanged _ _⟩
  | resetHeaders =>
    refine ⟨rfl, ?_⟩
    unfold resetHeaders EngineHeaders.resetHeaders
    by_cases hconsume : c.consumeFirstRecord = true
    · rw [if_pos hconsume]
      exact ⟨rfl, fresh_onHeadersChanged _ _⟩
    · rw [if_neg hconsume, if_neg hconsume]
      exact ⟨rfl, h⟩
  | resetFor policy => exact ⟨rfl, rfl, fresh_onHeadersChanged _ _⟩
  | restoreCursor headersInitialized => exact ⟨rfl, rfl, h.lookup, h.mapping, h.column⟩

variable (ε) in
theorem answers_of_fresh : ∀ (calls : List (HeaderCall ε)) {c : HeaderCache}, c.Fresh →
    answers apply calls c = answers EngineHeaders.apply calls c.toEngineHeaders
  | [], _, _ => rfl
  | call :: calls, c, h => by
    have hscans := apply_scans h call
    rw [answers, answers]
    rcases hcall : apply call c with ⟨a, c'⟩ | ⟨e, c'⟩ <;>
      rcases hscan : EngineHeaders.apply call c.toEngineHeaders with ⟨b, s⟩ | ⟨e', s⟩ <;>
      rw [hcall, hscan] at hscans
    · obtain ⟨rfl, rfl, hc'⟩ := hscans
      exact congrArg _ (answers_of_fresh calls hc')
    · exact hscans.elim
    · exact hscans.elim
    · obtain ⟨rfl, rfl, hc'⟩ := hscans
      exact congrArg _ (answers_of_fresh calls hc')

/-- **No answer is stale**: whatever calls an engine takes, it answers each as a scan of the headers
    that stand then does, and every walk through the lookup ends. -/
theorem answers_scan (policy : HeaderPolicy) (calls : List (HeaderCall ε)) :
    answers apply calls (new policy) =
      answers EngineHeaders.apply calls (EngineHeaders.ofPolicy policy) :=
  answers_of_fresh ε calls ⟨nofun, nofun, nofun⟩

end HeaderCache

end Coseva
