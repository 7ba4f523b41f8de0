/-
  Coseva — every resolution of header names is a linear scan.

  * `columns`: the columns that carry a name;
  * `HeaderLookup.rebuild_files`, `HeaderLookup.get_eq`: the lookup holds them,
    whatever the hash of the names;
  * `resolveDecodeMappingIndexed_eq`: the mapping by the lookup is the scan's;
  * `resolveOneName_eq`, `resolveTwoNames_eq`, `resolveNamesIndexed_eq`: the
    strategies of a projection are the scan;
  * `resolveNamesScan_resolves`: what the scan resolves, and which name it
    rejects.
-/
import Coseva.HeaderLookup
import Coseva.Lib.Probe

namespace Coseva

/-- The columns that carry the name, in ascending order. -/
def columns (headers : List Bytes) (name : Bytes) : List ℕ :=
  (List.range headers.length).filter fun column => decide (headers[column]? = some name)

section positions

variable {matched : Bytes → Bool} {headers : List Bytes}

theorem positions_concat (header : Bytes) :
    positions matched (headers ++ [header]) =
      positions matched headers ++ if matched header then [headers.length] else [] := by
  rw [positions, List.zipIdx_append, List.filterMap_append]
  by_cases h : matched header = true <;> simp [positions, h]

/-- The positions are the columns whose header is accepted. -/
theorem positions_eq : positions matched headers =
    (List.range headers.length).filter fun column => (headers[column]?).any matched := by
  induction headers using List.reverseRecOn with
  | nil => rfl
  | append_singleton headers header ih =>
    rw [positions_concat, ih, List.length_append, List.length_singleton, List.range_succ,
      List.filter_append]
    congr 1
    · refine List.filter_congr fun column hcolumn => ?_
      rw [List.getElem?_append_left (List.mem_range.mp hcolumn)]
    · by_cases h : matched header = true <;> simp [h]

theorem mem_positions {column : ℕ} :
    column ∈ positions matched headers ↔ ∃ header, headers[column]? = some header ∧ matched header := by
  rw [positions_eq, List.mem_filter, List.mem_range, Option.any_eq_true]
  refine ⟨fun h => h.2, fun ⟨header, hheader, hmatched⟩ => ⟨?_, header, hheader, hmatched⟩⟩
  exact (List.getElem?_eq_some_iff.mp hheader).1

variable (matched headers) in
theorem positions_ascending : (positions matched headers).Pairwise (· < ·) := by
  rw [positions_eq]
  exact List.pairwise_lt_range.filter _

end positions

theorem columns_eq (headers : List Bytes) (name : Bytes) :
    columns headers name = positions (fun header => decide (header = name)) headers := by
  rw [positions_eq, columns]
  refine List.filter_congr fun column _ => ?_
  cases headers[column]? <;> simp

theorem columns_concat (headers : List Bytes) (header name : Bytes) :
    columns (headers ++ [header]) name =
      columns headers name ++ if header = name then [headers.length] else [] := by
  rw [columns_eq, columns_eq, positions_concat]
  simp

theorem mem_columns {headers : List Bytes} {name : Bytes} {column : ℕ} :
    column ∈ columns headers name ↔ headers[column]? = some name := by
  rw [columns_eq, mem_positions]
  simp

/-! ## The lookup -/

namespace HeaderSlots

/-- The slots of the columns of one name. -/
def ofColumns : List ℕ → Option HeaderSlots
  | [] => none
  | [index] => some (one index)
  | first :: second :: rest => some (many (first :: second :: rest) (List.cons_ne_nil _ _))

/-- One more column of the name whose slots these are. -/
def add : Option HeaderSlots → ℕ → HeaderSlots
  | none, index => one index
  | some slots, index => slots.push index

theorem ofColumns_concat (columns : List ℕ) (index : ℕ) :
    ofColumns (columns ++ [index]) = some (add (ofColumns columns) index) := by
  rcases columns with _ | ⟨first, _ | ⟨second, rest⟩⟩ <;> rfl

theorem ofColumns_eq_some {columns : List ℕ} {slots : HeaderSlots}
    (h : ofColumns columns = some slots) :
    slots.asSlice = columns ∧ columns.head? = some slots.first := by
  rcases columns with _ | ⟨first, _ | ⟨second, rest⟩⟩ <;> cases h <;> exact ⟨rfl, rfl⟩

end HeaderSlots

/-- The header at the first column of the slots. -/
def HeaderRecord.owner (headers : HeaderRecord) (slots : HeaderSlots) : Option Bytes :=
  headers.fields[slots.first]?

/-- The slots of the names among the headers filed so far. -/
def slotsOf (filed : List Bytes) (name : Bytes) : Option HeaderSlots :=
  HeaderSlots.ofColumns (columns filed name)

theorem slotsOf_concat (filed : List Bytes) (header : Bytes) :
    slotsOf (filed ++ [header]) = Function.update (slotsOf filed) header
      (some (HeaderSlots.add (slotsOf filed header) filed.length)) := by
  funext name
  rw [slotsOf, columns_concat]
  rcases eq_or_ne name header with rfl | hne
  · rw [if_pos rfl, HeaderSlots.ofColumns_concat, Function.update_self]
    rfl
  · rw [if_neg hne.symm, List.append_nil, Function.update_of_ne hne]
    rfl

namespace HeaderLookup

/-- The table of a lookup, filed along the chains of the names' hashes. -/
abbrev Files (hash : Bytes → UInt64) (headers : HeaderRecord) (lookup : HeaderLookup)
    (filed : List Bytes) : Prop :=
  Probe.Files (· + 1) headers.owner hash lookup.table (slotsOf filed)

section walk

variable {hash : Bytes → UInt64} {headers : HeaderRecord} {lookup : HeaderLookup}

theorem insertAt_eq (name : Bytes) (index : ℕ) : ∀ (fuel : ℕ) (key : UInt64),
    lookup.insertAt headers name index fuel key =
      (Probe.find (· + 1) headers.owner lookup.table name fuel key).map fun key =>
        ⟨Function.update lookup.table key
          (some (HeaderSlots.add (lookup.table key) index))⟩
  | 0, _ => rfl
  | fuel + 1, key => by
    rw [insertAt, Probe.find]
    rcases htable : lookup.table key with _ | slots
    · simp only [Option.map_some, htable]
      rfl
    · simp only
      by_cases howner : headers.owner slots = some name
      · rw [if_pos howner, if_pos (show headers.fields[slots.first]? = some name from howner),
          Option.map_some, htable]
        rfl
      · rw [if_neg howner, if_neg (show ¬headers.fields[slots.first]? = some name from howner)]
        exact insertAt_eq name index fuel (key + 1)

theorem getAt_eq (name : Bytes) : ∀ (fuel : ℕ) (key : UInt64),
    lookup.getAt headers name fuel key =
      (Probe.find (· + 1) headers.owner lookup.table name fuel key).map lookup.table
  | 0, _ => rfl
  | fuel + 1, key => by
    rw [getAt, Probe.find]
    rcases htable : lookup.table key with _ | slots
    · simp only [Option.map_some, htable]
    · simp only
      by_cases howner : headers.owner slots = some name
      · rw [if_pos howner, if_pos (show headers.fields[slots.first]? = some name from howner),
          Option.map_some, htable]
      · rw [if_neg howner, if_neg (show ¬headers.fields[slots.first]? = some name from howner)]
        exact getAt_eq name fuel (key + 1)

theorem iterate_key (key : UInt64) : ∀ n : ℕ, (· + 1)^[n] key = key + UInt64.ofNat n
  | 0 => by simp
  | n + 1 => by
    rw [Function.iterate_succ_apply', iterate_key key n, UInt64.ofNat_add, UInt64.add_assoc]
    rfl

/-- A chain of no more keys than a `usize` counts meets none of them twice. -/
theorem chain_distinct (key : UInt64) :
    ∀ i < headers.fields.length + 1, ∀ j < headers.fields.length + 1,
      (· + 1)^[i] key = (· + 1)^[j] key → i = j := by
  intro i hi j hj hkeys
  rw [iterate_key, iterate_key] at hkeys
  have hsame : UInt64.ofNat i = UInt64.ofNat j := by simpa using hkeys
  have hbound := headers.addressable
  have := congrArg UInt64.toNat hsame
  simp only [UInt64.toNat_ofNat'] at this
  omega

theorem mem_of_slotsOf {filed : List Bytes} {name : Bytes} (h : slotsOf filed name ≠ none) :
    name ∈ filed := by
  rcases hcolumns : columns filed name with _ | ⟨column, rest⟩
  · rw [slotsOf, hcolumns] at h
    exact absurd rfl h
  · have hmem : column ∈ columns filed name := by simp [hcolumns]
    exact List.mem_of_getElem? (mem_columns.mp hmem)

section filed

variable {filed : List Bytes} (h : lookup.Files hash headers filed)

include h

/-- A walk among the headers filed so far ends. -/
theorem Files.exists_free (hfiled : filed <+: headers.fields) (key : UInt64) :
    ∃ j < headers.fields.length + 1, lookup.table ((· + 1)^[j] key) = none := by
  refine Probe.Files.exists_free h headers.fields.toFinset (fun name hname => ?_) ?_
    (chain_distinct key)
  · exact List.mem_toFinset.mpr (hfiled.subset (mem_of_slotsOf hname))
  · exact Nat.lt_succ_of_le (List.toFinset_card_le _)

/-- **One header more is filed** behind those before it. -/
theorem Files.insertAt {name : Bytes} (hfiled : filed ++ [name] <+: headers.fields) :
    ∃ lookup', lookup.insertAt headers name filed.length (headers.fields.length + 1)
        (hash name) = some lookup' ∧ lookup'.Files hash headers (filed ++ [name]) := by
  set slots := HeaderSlots.add (slotsOf filed name) filed.length with hslots
  have hof : HeaderSlots.ofColumns (columns filed name ++ [filed.length]) = some slots :=
    HeaderSlots.ofColumns_concat _ _
  obtain ⟨hslice, hfirst⟩ := HeaderSlots.ofColumns_eq_some hof
  have howner : headers.owner slots = some name := by
    -- the first of the name's columns carries it, be it an earlier one or this
    have hmem : slots.first ∈ columns (filed ++ [name]) name := by
      rw [columns_concat, if_pos rfl]
      exact List.mem_of_mem_head? hfirst
    have hget := mem_columns.mp hmem
    obtain ⟨rest, hrest⟩ := hfiled
    rw [HeaderRecord.owner, ← hrest, List.getElem?_append_left, hget]
    exact (List.getElem?_eq_some_iff.mp hget).1
  have hnew : ∀ key, lookup.table key ≠ some slots := by
    intro key hkey
    obtain ⟨name', -, hname'⟩ := Probe.Files.owned h hkey
    have hmem : filed.length ∈ columns filed name' := by
      rw [← (HeaderSlots.ofColumns_eq_some hname').1, hslice]
      simp
    exact Nat.lt_irrefl _ (List.getElem?_eq_some_iff.mp (mem_columns.mp hmem)).1
  obtain ⟨key, hfind, hkey, hfiles⟩ := Probe.Files.insert h
    (h.exists_free ((List.prefix_append _ _).trans hfiled) (hash name)) howner hnew
  refine ⟨_, by rw [insertAt_eq, hfind, Option.map_some], ?_⟩
  rw [Files, slotsOf_concat, hkey]
  exact hfiles

/-- **A lookup reports the columns** of every name. -/
theorem Files.get (hfiled : filed <+: headers.fields) (name : Bytes) :
    lookup.get hash headers name = some (slotsOf filed name) := by
  obtain ⟨key, hfind, hkey, -⟩ := Probe.Files.find_value h (h.exists_free hfiled (hash name))
  rw [HeaderLookup.get, getAt_eq, hfind, Option.map_some, hkey]

end filed

variable (hash headers lookup)

/-- **The lookup is built**, and it files every header. -/
theorem rebuild_files :
    ∃ lookup', lookup.rebuild hash headers = some lookup' ∧
      lookup'.Files hash headers headers.fields := by
  have hrun : ∀ (rest filed : List Bytes) (lookup : HeaderLookup),
      filed ++ rest = headers.fields → lookup.Files hash headers filed →
      ∃ lookup', (rest.zipIdx filed.length).foldlM (fun lookup (header : Bytes × ℕ) =>
          lookup.insertAt headers header.1 header.2 (headers.fields.length + 1) (hash header.1))
          lookup = some lookup' ∧ lookup'.Files hash headers headers.fields := by
    intro rest
    induction rest with
    | nil =>
      rintro filed lookup hfields h
      rw [List.append_nil] at hfields
      exact ⟨lookup, rfl, hfields ▸ h⟩
    | cons name rest ih =>
      intro filed lookup hfields h
      rw [List.append_cons] at hfields
      obtain ⟨lookup', hinsert, h'⟩ := h.insertAt ⟨rest, hfields⟩
      obtain ⟨lookup'', hrest, h''⟩ := ih (filed ++ [name]) lookup' hfields h'
      refine ⟨lookup'', ?_, h''⟩
      rw [List.zipIdx_cons, List.foldlM_cons, hinsert]
      simpa using hrest
  exact hrun headers.fields [] lookup.clear rfl Probe.Files.empty

end walk

end HeaderLookup

/-! ## The mapping of a decoded type -/

theorem foldl_see (first : ℕ) (ambiguous : Bool) : ∀ columns : List ℕ,
    columns.foldl Found.see ⟨some first, ambiguous⟩ =
      ⟨some first, ambiguous || columns.any fun column => decide (column ≠ first)⟩
  | [] => by simp
  | column :: rest => by
    rw [List.foldl_cons, Found.see]
    simp only
    by_cases h : first = column
    · rw [if_pos h, foldl_see first ambiguous rest]
      simp [h]
    · rw [if_neg h, foldl_see first true rest]
      simp [Ne.symm h]

section mapping

variable {hash : Bytes → UInt64} {headers : HeaderRecord} {lookup : HeaderLookup}
  (h : lookup.Files hash headers headers.fields)

include h

theorem resolveQuery_eq (found : Found) (query : Bytes) :
    resolveQuery hash headers lookup found query =
      some ((columns headers.fields query).foldl Found.see found) := by
  rw [resolveQuery, h.get (List.prefix_refl _), Option.map_some]
  rcases hslots : slotsOf headers.fields query with _ | slots
  · rcases hcolumns : columns headers.fields query with _ | ⟨_, _ | _⟩
    · rfl
    all_goals rw [slotsOf, hcolumns] at hslots; cases hslots
  · simp only
    rw [(HeaderSlots.ofColumns_eq_some hslots).1]

/-- The queries of one target see the columns of each of its names. -/
theorem resolveQueries_eq (queries : List Bytes) (found : Found) :
    queries.foldlM (resolveQuery hash headers lookup) found =
      some ((queries.flatMap (columns headers.fields)).foldl Found.see found) := by
  induction queries generalizing found with
  | nil => rfl
  | cons query rest ih =>
    rw [List.foldlM_cons, resolveQuery_eq h, List.flatMap_cons, List.foldl_append]
    exact ih _

/-- **One target**: what the lookup finds is what the scan finds. -/
theorem resolveTargetIndexed_eq (aliases : List (List Bytes)) (target : ℕ) (name : Bytes) :
    resolveTargetIndexed hash headers lookup aliases target name =
      some (resolveTarget headers aliases target name) := by
  rw [resolveTargetIndexed, resolveQueries_eq h, resolveTarget, Option.map_some]
  set queries := name :: alternates aliases target with hqueries
  set matched : Bytes → Bool := fun header =>
    decide (header = name) || (alternates aliases target).any fun alternate => header == alternate
    with hmatched
  -- the two meet the same columns, though not in the same order
  have hsame : ∀ column, column ∈ queries.flatMap (columns headers.fields) ↔
      column ∈ positions matched headers.fields := by
    intro column
    rw [List.mem_flatMap, mem_positions]
    constructor
    · rintro ⟨query, hquery, hcolumn⟩
      refine ⟨query, mem_columns.mp hcolumn, ?_⟩
      rcases List.mem_cons.mp hquery with rfl | halternate
      · simp [hmatched]
      · simp only [hmatched, Bool.or_eq_true, List.any_eq_true]
        exact Or.inr ⟨query, halternate, by simp⟩
    · rintro ⟨header, hheader, hmatch⟩
      refine ⟨header, ?_, mem_columns.mpr hheader⟩
      simp only [hmatched, Bool.or_eq_true, decide_eq_true_eq, List.any_eq_true, beq_iff_eq]
        at hmatch
      rcases hmatch with rfl | ⟨alternate, halternate, rfl⟩
      · exact List.mem_cons_self
      · exact List.mem_cons_of_mem _ halternate
  have hascending := positions_ascending matched headers.fields
  generalize queries.flatMap (columns headers.fields) = seen at hsame
  generalize positions matched headers.fields = scanned at hsame hascending
  rcases seen with _ | ⟨first, seen⟩
  · -- none was seen
    rcases scanned with _ | ⟨column, scanned⟩
    · rfl
    · exact absurd ((hsame column).mpr List.mem_cons_self) List.not_mem_nil
  rw [List.foldl_cons, show Found.see ⟨none, false⟩ first = ⟨some first, false⟩ from rfl, foldl_see]
  rcases scanned with _ | ⟨column, _ | ⟨second, scanned⟩⟩
  · exact absurd ((hsame first).mp List.mem_cons_self) List.not_mem_nil
  · -- the same column each time
    have hall : ∀ other ∈ first :: seen, other = column := fun other hother =>
      List.mem_singleton.mp ((hsame other).mp hother)
    have hfirst := hall first List.mem_cons_self
    have hany : (seen.any fun column => decide (column ≠ first)) = false := by
      simp only [List.any_eq_false, decide_eq_true_eq, not_not]
      exact fun other hother => (hall other (List.mem_cons_of_mem _ hother)).trans hfirst.symm
    rw [hany, hfirst]
    rfl
  · -- two of them, one of which is not the first one seen
    have hlt : column < second := List.rel_of_pairwise_cons hascending List.mem_cons_self
    have hcolumn := (hsame column).mpr List.mem_cons_self
    have hsecond := (hsame second).mpr (List.mem_cons_of_mem _ List.mem_cons_self)
    have hany : (seen.any fun column => decide (column ≠ first)) = true := by
      simp only [List.any_eq_true, decide_eq_true_eq]
      rcases List.mem_cons.mp hcolumn with rfl | hcolumn
      · rcases List.mem_cons.mp hsecond with rfl | hsecond
        · exact absurd hlt (Nat.lt_irrefl _)
        · exact ⟨second, hsecond, hlt.ne'⟩
      · rcases eq_or_ne column first with rfl | hne
        · rcases List.mem_cons.mp hsecond with rfl | hsecond
          · exact absurd hlt (Nat.lt_irrefl _)
          · exact ⟨second, hsecond, hlt.ne'⟩
        · exact ⟨column, hcolumn, hne⟩
    rw [hany]
    rfl

omit h in
/-- A walk over every element ends where each one does. -/
theorem mapM_ended {α β : Type} {f : α → ExceptT DecodeError Option β} {g : α → Except DecodeError β}
    (hfg : ∀ a, f a = some (g a)) : ∀ l : List α, l.mapM f = some (l.mapM g)
  | [] => rfl
  | a :: l => by
    rw [List.mapM_cons, List.mapM_cons, hfg a, mapM_ended hfg l]
    rcases g a with _ | b
    · rfl
    · rcases l.mapM g with _ | bs <;> rfl

theorem resolveDecodeMappingIndexed_eq (names : List Bytes) (aliases : List (List Bytes)) :
    resolveDecodeMappingIndexed hash headers lookup names aliases =
      some (resolveDecodeMapping headers names aliases) :=
  mapM_ended (α := Bytes × ℕ)
    (f := fun p => resolveTargetIndexed hash headers lookup aliases p.2 p.1)
    (g := fun p => resolveTarget headers aliases p.2 p.1)
    (fun p => resolveTargetIndexed_eq h aliases p.2 p.1) names.zipIdx

end mapping

/-! ## The indices of a projection -/

section projection

variable (hash : Bytes → UInt64) (headers : List Bytes)

theorem resolveNamesScan_eq (names : List Bytes) :
    resolveNamesScan headers names = names.mapM fun name => onlyMatch name (columns headers name) := by
  simp only [columns_eq]
  rfl

/-- The loop over one name rejects its second position. -/
theorem resolveOneName_scan (name : Bytes) : ∀ (rest : List (Bytes × ℕ)) (found : Option ℕ),
    resolveOneName.scan name rest found =
      match found.toList ++ rest.filterMap
        (fun (header, index) => if decide (header = name) then some index else none) with
      | [] => .ok none
      | [index] => .ok (some index)
      | _ :: _ :: _ => .error ⟨.duplicateHeader, name⟩
  | [], none => rfl
  | [], some _ => rfl
  | (header, index) :: rest, found => by
    rw [resolveOneName.scan]
    by_cases hname : header = name
    · rw [if_pos hname]
      rcases found with _ | first
      · rw [if_neg (by simp), resolveOneName_scan name rest]
        simp [hname]
      · rw [if_pos (by simp)]
        simp [hname]
    · rw [if_neg hname, resolveOneName_scan name rest]
      simp [hname]

theorem resolveOneName_eq (name : Bytes) :
    resolveOneName headers name = onlyMatch name (columns headers name) := by
  rw [resolveOneName, resolveOneName_scan, columns_eq]
  rw [positions]
  generalize List.filterMap _ headers.zipIdx = found
  rcases found with _ | ⟨first, _ | ⟨second, rest⟩⟩ <;> rfl

/-- What the loop over two names remembers of one of them. -/
def Sighting.of (columns : List ℕ) : Sighting := ⟨columns.getLast?, decide (2 ≤ columns.length)⟩

theorem Sighting.of_concat (header name : Bytes) :
    (Sighting.of (columns headers name)).replace name header headers.length =
      Sighting.of (columns (headers ++ [header]) name) := by
  rw [columns_concat, Sighting.replace]
  by_cases hname : header = name
  · rw [if_pos hname, if_pos hname, Sighting.of, Sighting.of]
    rcases columns headers name with _ | ⟨first, rest⟩
    · rfl
    · rw [List.getLast?_concat]
      simp
  · rw [if_neg hname, if_neg hname, List.append_nil]

theorem resolvedName_of (columns : List ℕ) (name : Bytes) :
    resolvedName (Sighting.of columns) name = onlyMatch name columns := by
  rcases columns with _ | ⟨first, _ | ⟨second, rest⟩⟩
  · rfl
  · rfl
  · rw [resolvedName, if_pos (by simp [Sighting.of])]
    rfl

theorem resolveTwoNames_eq (first second : Bytes) :
    resolveTwoNames headers first second = resolveNamesScan headers [first, second] := by
  have hfold : headers.zipIdx.foldl
      (fun (s : Sighting × Sighting) (p : Bytes × ℕ) =>
        (s.1.replace first p.1 p.2, s.2.replace second p.1 p.2)) (⟨none, false⟩, ⟨none, false⟩) =
      (Sighting.of (columns headers first), Sighting.of (columns headers second)) := by
    induction headers using List.reverseRecOn with
    | nil => rfl
    | append_singleton headers header ih =>
      rw [List.zipIdx_append, List.foldl_append, ih]
      simp only [List.zipIdx_singleton, Nat.zero_add, List.foldl_cons, List.foldl_nil,
        Sighting.of_concat]
  rw [resolveTwoNames, resolveNamesScan_eq]
  simp only [hfold, resolvedName_of, List.mapM_cons, List.mapM_nil]
  rcases onlyMatch first (columns headers first) with _ | _
  · rfl
  · rcases onlyMatch second (columns headers second) with _ | _ <;> rfl

/-- A bucket holds the columns whose names have its hash. -/
theorem buckets_eq (key : UInt64) :
    buckets hash headers key = positions (fun header => decide (hash header = key)) headers := by
  induction headers using List.reverseRecOn with
  | nil => rfl
  | append_singleton headers header ih =>
    rw [positions_concat, ← ih, buckets, List.zipIdx_append, List.foldl_append]
    simp only [List.zipIdx_singleton, Nat.zero_add, List.foldl_cons, List.foldl_nil]
    rw [← buckets]
    by_cases hkey : hash header = key
    · rw [hkey, Function.update_self]
      simp
    · rw [Function.update_of_ne (Ne.symm hkey)]
      simp [hkey]

theorem resolveNamesIndexed_eq (names : List Bytes) :
    resolveNamesIndexed hash headers names = resolveNamesScan headers names := by
  rw [resolveNamesScan_eq, resolveNamesIndexed]
  congr 1
  funext name
  congr 1
  rw [buckets_eq, positions_eq, List.filter_filter, columns]
  refine List.filter_congr fun column _ => ?_
  rcases headers[column]? with _ | header
  · rfl
  · by_cases hname : header = name <;> simp [hname]

theorem resolveOneName_scan_eq (name : Bytes) :
    (resolveOneName headers name).map ([·]) = resolveNamesScan headers [name] := by
  rw [resolveOneName_eq, resolveNamesScan_eq, List.mapM_cons, List.mapM_nil]
  rcases onlyMatch name (columns headers name) with _ | _ <;> rfl

/-- Whichever strategy is chosen, it is the scan. -/
theorem fromHeadersBytes_eq (names : List Bytes) :
    fromHeadersBytes hash headers names = resolveNamesScan headers names := by
  rcases names with _ | ⟨first, _ | ⟨second, _ | ⟨third, rest⟩⟩⟩
  · rfl
  · by_cases hwide : wideMapping 1 headers.length = true
    · simp only [fromHeadersBytes, resolutionStrategy, List.length_singleton, if_pos hwide,
        resolveNamesIndexed_eq]
    · simp only [fromHeadersBytes, resolutionStrategy, List.length_singleton, if_neg hwide]
      exact resolveOneName_scan_eq headers first
  · by_cases hwide : wideMapping 2 headers.length = true
    · simp only [fromHeadersBytes, resolutionStrategy, List.length_cons, List.length_nil,
        Nat.zero_add, if_pos hwide, resolveNamesIndexed_eq]
    · simp only [fromHeadersBytes, resolutionStrategy, List.length_cons, List.length_nil,
        Nat.zero_add, if_neg hwide]
      exact resolveTwoNames_eq headers first second
  · by_cases hwide : wideMapping (rest.length + 1 + 1 + 1) headers.length = true
    · simp only [fromHeadersBytes, resolutionStrategy, List.length_cons, if_pos hwide,
        resolveNamesIndexed_eq]
    · simp only [fromHeadersBytes, resolutionStrategy, List.length_cons, if_neg hwide]

end projection

theorem exactBound_eq {items : Items} {count : ℕ} (h : exactBound items = some count) :
    items.list.length = count := by
  rw [exactBound] at h
  split_ifs at h with hbound
  cases h
  exact Nat.le_antisymm (items.le_upper _ hbound) items.lower_le

/-- Whatever the iterators promise of their lengths, the names resolve as the
    scan does. -/
theorem fromHeaders_eq (hash : Bytes → UInt64) (headers names : Items) :
    fromHeaders hash headers names = resolveNamesScan headers.list names.list := by
  rw [fromHeaders]
  split
  · rename_i hnames
    rw [List.eq_nil_of_length_eq_zero (exactBound_eq hnames)]
    rfl
  · rename_i name hheaders hnames hlist
    rw [hlist]
    split_ifs
    · exact fromHeadersBytes_eq _ _ _
    · exact resolveOneName_scan_eq headers.list name
  · rename_i first second hheaders hnames hlist
    rw [hlist]
    split_ifs
    · exact fromHeadersBytes_eq _ _ _
    · exact resolveTwoNames_eq headers.list first second
  · exact fromHeadersBytes_eq _ _ _

/-- The names resolve to the only columns that carry them; or one of them is the
    first that no column carries, or more than one. -/
def Resolves (headers names : List Bytes) : Except HeaderError (List ℕ) → Prop
  | .ok indices => List.Forall₂ (fun name index => columns headers name = [index]) names indices
  | .error error => ∃ before name after, names = before ++ name :: after ∧ error.name = name ∧
      (∀ earlier ∈ before, ∃ index, columns headers earlier = [index]) ∧
      (error.kind = .missingHeader ∧ columns headers name = [] ∨
        error.kind = .duplicateHeader ∧ 2 ≤ (columns headers name).length)

theorem resolveNamesScan_resolves (headers : List Bytes) : ∀ names : List Bytes,
    Resolves headers names (resolveNamesScan headers names)
  | [] => List.Forall₂.nil
  | name :: names => by
    have ih := resolveNamesScan_resolves headers names
    rw [resolveNamesScan_eq] at ih ⊢
    rw [List.mapM_cons]
    rcases hcolumns : columns headers name with _ | ⟨first, _ | ⟨second, rest⟩⟩
    · exact ⟨[], name, names, rfl, rfl, by simp, Or.inl ⟨rfl, hcolumns⟩⟩
    · revert ih
      rcases names.mapM fun name => onlyMatch name (columns headers name) with error | indices
      · rintro ⟨before, name', after, rfl, hname, hbefore, hkind⟩
        refine ⟨name :: before, name', after, rfl, hname, ?_, hkind⟩
        rintro earlier (_ | ⟨_, hearlier⟩)
        · exact ⟨first, hcolumns⟩
        · exact hbefore earlier hearlier
      · exact fun ih => List.Forall₂.cons hcolumns ih
    · exact ⟨[], name, names, rfl, rfl, by simp, Or.inr ⟨rfl, by simp [hcolumns]⟩⟩

/-- **Every resolution is a linear scan.** Whatever the names hash to, a rebuilt
    lookup reports the columns of every name and maps a decoded type as the scan
    does; and every strategy of a projection resolves its names as the scan
    does, with the same error. -/
theorem header_resolution (hash : Bytes → UInt64) :
    (∀ (headers : HeaderRecord) (lookup : HeaderLookup), ∃ lookup',
      lookup.rebuild hash headers = some lookup' ∧
      (∀ name, lookup'.get hash headers name = some none ∧ columns headers.fields name = [] ∨
        ∃ slots, lookup'.get hash headers name = some (some slots) ∧
          slots.asSlice = columns headers.fields name ∧ slots.asSlice ≠ []) ∧
      ∀ names aliases, resolveDecodeMappingIndexed hash headers lookup' names aliases =
        some (resolveDecodeMapping headers names aliases)) ∧
    (∀ headers names : List Bytes, Resolves headers names (resolveNamesScan headers names) ∧
      resolveNamesIndexed hash headers names = resolveNamesScan headers names) ∧
    (∀ (headers : List Bytes) (name : Bytes),
      (resolveOneName headers name).map ([·]) = resolveNamesScan headers [name]) ∧
    (∀ (headers : List Bytes) (first second : Bytes),
      resolveTwoNames headers first second = resolveNamesScan headers [first, second]) ∧
    ∀ headers names : Items,
      fromHeaders hash headers names = resolveNamesScan headers.list names.list := by
  refine ⟨fun headers lookup => ?_, fun headers names => ⟨resolveNamesScan_resolves headers names,
    resolveNamesIndexed_eq hash headers names⟩, resolveOneName_scan_eq, resolveTwoNames_eq,
    fromHeaders_eq hash⟩
  obtain ⟨lookup', hbuild, hfiles⟩ := HeaderLookup.rebuild_files hash headers lookup
  refine ⟨lookup', hbuild, fun name => ?_, fun names aliases =>
    resolveDecodeMappingIndexed_eq hfiles names aliases⟩
  have hget := hfiles.get (List.prefix_refl _) name
  rw [slotsOf] at hget
  rcases hcolumns : columns headers.fields name with _ | ⟨first, _ | ⟨second, rest⟩⟩ <;>
    rw [hcolumns] at hget
  · exact Or.inl ⟨hget, rfl⟩
  · exact Or.inr ⟨_, hget, rfl, List.cons_ne_nil _ _⟩
  · exact Or.inr ⟨_, hget, rfl, List.cons_ne_nil _ _⟩

end Coseva
