/-
  Coseva — the resolution of header names
  (`coseva/src/engine/header_lookup.rs`, `engine.rs`, `engine/headers.rs`, `projection.rs`).

  * `HeaderSlots`, `HeaderLookup`: the columns of each name, keyed by its hash;
  * `resolveDecodeMapping`, `resolveDecodeMappingIndexed`: the columns of a
    decoded type, by a scan and by the lookup;
  * `resolveOneName`, `resolveTwoNames`, `resolveNamesScan`,
    `resolveNamesIndexed`: those of a projection, and `fromHeaders`, which
    chooses among them.

  The hash of a name is a parameter of what depends on it; `hashName` is the
  code's own, with which an engine keeps its lookup (`Coseva.HeaderCache`).
-/
import Coseva.Config
import Mathlib.Algebra.Group.Nat.Defs
import Mathlib.Logic.Function.Basic

namespace Coseva

/-- The fields of a header record; a `usize` counts them. -/
structure HeaderRecord where
  fields : List Bytes
  addressable : fields.length < 2 ^ 64
  deriving DecidableEq, Repr

/-! ## The hash of a name -/

namespace HeaderHasher

def seed : UInt64 := 0x517cc1b727220a95

/-- `rotate_left(5)`. -/
def rotateLeft (state : UInt64) : UInt64 := (state <<< 5) ||| (state >>> 59)

/-- `mix`: one machine word is folded into the state. -/
def mix (state word : UInt64) : UInt64 := (rotateLeft state ^^^ word) * seed

/-- `from_le_bytes`. -/
def ofLeBytes (bytes : Bytes) : UInt64 := bytes.foldr (fun b w => (w <<< 8) ||| b.toUInt64) 0

/-- The whole chunks of eight bytes, and the bytes behind them. -/
def mixChunks (state : UInt64) : Bytes → UInt64 × Bytes
  | b₀ :: b₁ :: b₂ :: b₃ :: b₄ :: b₅ :: b₆ :: b₇ :: rest =>
    mixChunks (mix state (ofLeBytes [b₀, b₁, b₂, b₃, b₄, b₅, b₆, b₇])) rest
  | rest => (state, rest)

/-- One chunk of four bytes, if there is one. -/
def mixHalf (state : UInt64) : Bytes → UInt64 × Bytes
  | b₀ :: b₁ :: b₂ :: b₃ :: rest => (mix state (ofLeBytes [b₀, b₁, b₂, b₃]), rest)
  | rest => (state, rest)

/-- `write`. -/
def write (state : UInt64) (bytes : Bytes) : UInt64 :=
  let (state, rest) := mixChunks state bytes
  let (state, rest) := mixHalf state rest
  let remainder : UInt64 := rest.foldl (fun w b => (w <<< 8) ||| b.toUInt64) 0
  mix state (remainder ^^^ UInt64.ofNat bytes.length)

end HeaderHasher

/-- `hash_name`. -/
def hashName (name : Bytes) : UInt64 := HeaderHasher.write 0 name

example : hashName "abc".toUTF8.toList = 0xb756958fb74601e0 := by decide +kernel

example : hashName "abcdefghijklmnopq".toUTF8.toList = 0x375fa9166a94194f := by decide +kernel

/-! ## The lookup -/

/-- The columns that carry one name. -/
inductive HeaderSlots
  | one (index : ℕ)
  | many (indices : List ℕ) (nonempty : indices ≠ [])
  deriving DecidableEq, Repr

namespace HeaderSlots

def push : HeaderSlots → ℕ → HeaderSlots
  | one first, index => many [first, index] (List.cons_ne_nil _ _)
  | many indices _, index => many (indices ++ [index]) (by simp)

def asSlice : HeaderSlots → List ℕ
  | one index => [index]
  | many indices _ => indices

def first : HeaderSlots → ℕ
  | one index => index
  | many indices h => indices.head h

end HeaderSlots

/-- The table of a lookup: the slots filed under each key. -/
structure HeaderLookup where
  table : UInt64 → Option HeaderSlots

namespace HeaderLookup

def clear (_ : HeaderLookup) : HeaderLookup := ⟨fun _ => none⟩

section walk

variable (hash : Bytes → UInt64) (headers : HeaderRecord)

/-- `insert_at`: the walk from `key` on to the name's own key; `none` when it
    has not ended after `fuel` keys. -/
def insertAt (lookup : HeaderLookup) (name : Bytes) (index : ℕ) :
    (fuel : ℕ) → (key : UInt64) → Option HeaderLookup
  | 0, _ => none
  | fuel + 1, key =>
    match lookup.table key with
    | some slots =>
      if headers.fields[slots.first]? = some name then
        some ⟨Function.update lookup.table key (some (slots.push index))⟩
      else
        lookup.insertAt name index fuel (key + 1)
    | none => some ⟨Function.update lookup.table key (some (.one index))⟩

/-- `rebuild`; `none` when a walk does not end in one key more than there are
    headers. -/
def rebuild (lookup : HeaderLookup) : Option HeaderLookup :=
  headers.fields.zipIdx.foldlM
    (fun lookup (name, index) =>
      lookup.insertAt headers name index (headers.fields.length + 1) (hash name))
    lookup.clear

/-- `get_at`: the slots of the name, if it has any; the outer `none` when the
    walk has not ended after `fuel` keys. -/
def getAt (lookup : HeaderLookup) (name : Bytes) :
    (fuel : ℕ) → (key : UInt64) → Option (Option HeaderSlots)
  | 0, _ => none
  | fuel + 1, key =>
    match lookup.table key with
    | none => some none
    | some slots =>
      if headers.fields[slots.first]? = some name then some (some slots)
      else lookup.getAt name fuel (key + 1)

def get (lookup : HeaderLookup) (name : Bytes) : Option (Option HeaderSlots) :=
  lookup.getAt headers name (headers.fields.length + 1) (hash name)

end walk

end HeaderLookup

/-- `MAPPING_INDEX_THRESHOLD`. -/
def mappingIndexThreshold : ℕ := 1024

/-- `wide_mapping`: a product that saturates is above the threshold too. -/
def wideMapping (names headers : ℕ) : Bool := decide (names * headers > mappingIndexThreshold)

/-! ## The mapping of a decoded type -/

/-- `Error::field(ErrorKind::Decode, target, Some(name))`. -/
structure DecodeError where
  target : ℕ
  name : Bytes
  deriving DecidableEq, Repr

section mapping

variable (hash : Bytes → UInt64) (headers : HeaderRecord) (lookup : HeaderLookup)
  (names : List Bytes) (aliases : List (List Bytes))

/-- The alternate names of a target. -/
def alternates (target : ℕ) : List Bytes := aliases[target]?.getD []

/-- The positions of the headers that `matched` accepts, as the iterators of the
    scans yield them. -/
def positions (matched : Bytes → Bool) (headers : List Bytes) : List ℕ :=
  headers.zipIdx.filterMap fun (header, index) => if matched header then some index else none

/-- The column of one target, by a scan. -/
def resolveTarget (target : ℕ) (name : Bytes) : Except DecodeError ℕ :=
  let matched := fun header =>
    decide (header = name) || (alternates aliases target).any fun alternate => header == alternate
  match positions matched headers.fields with
  | [] => .error ⟨target, name⟩
  | [source] => .ok source
  | _ :: _ :: _ => .error ⟨target, name⟩

def resolveDecodeMapping : Except DecodeError (List ℕ) :=
  names.zipIdx.mapM fun (name, target) => resolveTarget headers aliases target name

/-- What the queries of one target have found. -/
structure Found where
  source : Option ℕ
  ambiguous : Bool
  deriving DecidableEq, Repr

/-- One more column. -/
def Found.see (found : Found) (column : ℕ) : Found :=
  match found.source with
  | none => { found with source := some column }
  | some first => if first = column then found else { found with ambiguous := true }

/-- The columns of one query; `none` when its walk does not end. -/
def resolveQuery (found : Found) (query : Bytes) : Option Found :=
  (lookup.get hash headers query).map fun
    | none => found
    | some slots => slots.asSlice.foldl Found.see found

/-- The column of one target, by the lookup. -/
def resolveTargetIndexed (target : ℕ) (name : Bytes) : ExceptT DecodeError Option ℕ :=
  ((name :: alternates aliases target).foldlM (resolveQuery hash headers lookup)
    ⟨none, false⟩).map fun
    | ⟨some column, false⟩ => .ok column
    | _ => .error ⟨target, name⟩

/-- `resolve_decode_mapping_indexed`; the outer `none` when a walk does not end. -/
def resolveDecodeMappingIndexed : ExceptT DecodeError Option (List ℕ) :=
  names.zipIdx.mapM fun (name, target) =>
    resolveTargetIndexed hash headers lookup aliases target name

/-- How the fields of a record meet the targets of a decoded type. -/
inductive TypedMapping
  | identity
  | mapped (sources : List ℕ)
  deriving DecidableEq, Repr

def typedMappingFrom (sourceMapping : List ℕ) (headerLen : ℕ) : TypedMapping :=
  if sourceMapping.length = headerLen ∧ ∀ p ∈ sourceMapping.zipIdx, p.2 = p.1 then .identity
  else .mapped sourceMapping

end mapping

/-! ## The indices of a projection -/

inductive HeaderErrorKind
  | duplicateHeader
  | missingHeader
  deriving DecidableEq, Repr

/-- `header_error`, whose detail says the same in words. -/
structure HeaderError where
  kind : HeaderErrorKind
  name : Bytes
  deriving DecidableEq, Repr

/-- The loop of `resolve_one_name`. -/
def resolveOneName.scan (name : Bytes) :
    List (Bytes × ℕ) → Option ℕ → Except HeaderError (Option ℕ)
  | [], found => .ok found
  | (header, index) :: rest, found =>
    if header = name then
      if found.isSome then .error ⟨.duplicateHeader, name⟩ else scan name rest (some index)
    else
      scan name rest found

def resolveOneName (headers : List Bytes) (name : Bytes) : Except HeaderError ℕ := do
  match ← resolveOneName.scan name headers.zipIdx none with
  | some index => .ok index
  | none => .error ⟨.missingHeader, name⟩

/-- A name's last position so far, and whether it has had one before. -/
structure Sighting where
  index : Option ℕ
  duplicate : Bool
  deriving DecidableEq, Repr

/-- `replace(index).is_some()` at a header that is the name. -/
def Sighting.replace (s : Sighting) (name header : Bytes) (index : ℕ) : Sighting :=
  if header = name then ⟨some index, s.duplicate || s.index.isSome⟩ else s

def resolvedName (s : Sighting) (name : Bytes) : Except HeaderError ℕ :=
  if s.duplicate then .error ⟨.duplicateHeader, name⟩
  else
    match s.index with
    | some index => .ok index
    | none => .error ⟨.missingHeader, name⟩

def resolveTwoNames (headers : List Bytes) (firstName secondName : Bytes) :
    Except HeaderError (List ℕ) := do
  let (first, second) := headers.zipIdx.foldl
    (fun (first, second) (header, index) =>
      (first.replace firstName header index, second.replace secondName header index))
    ((⟨none, false⟩, ⟨none, false⟩) : Sighting × Sighting)
  let first ← resolvedName first firstName
  let second ← resolvedName second secondName
  .ok [first, second]

/-- The first of a name's positions, if it is the only one. -/
def onlyMatch (name : Bytes) : List ℕ → Except HeaderError ℕ
  | [] => .error ⟨.missingHeader, name⟩
  | [first] => .ok first
  | _ :: _ :: _ => .error ⟨.duplicateHeader, name⟩

def resolveNamesScan (headers names : List Bytes) : Except HeaderError (List ℕ) :=
  names.mapM fun name => onlyMatch name (positions (fun header => decide (header = name)) headers)

/-- The columns whose names hash alike, in ascending order. -/
def buckets (hash : Bytes → UInt64) (headers : List Bytes) : UInt64 → List ℕ :=
  headers.zipIdx.foldl
    (fun buckets (header, index) =>
      Function.update buckets (hash header) (buckets (hash header) ++ [index]))
    fun _ => []

def resolveNamesIndexed (hash : Bytes → UInt64) (headers names : List Bytes) :
    Except HeaderError (List ℕ) :=
  names.mapM fun name => onlyMatch name
    ((buckets hash headers (hash name)).filter fun index => decide (headers[index]? = some name))

inductive ResolutionStrategy
  | empty
  | one
  | two
  | scan
  | indexed
  deriving DecidableEq, Repr

def resolutionStrategy (headers names : List Bytes) : ResolutionStrategy :=
  match names.length with
  | 0 => .empty
  | 1 => if wideMapping 1 headers.length then .indexed else .one
  | 2 => if wideMapping 2 headers.length then .indexed else .two
  | count => if wideMapping count headers.length then .indexed else .scan

/-- What one strategy makes of the names; `one` and `two` are chosen for that
    many names only. -/
def fromHeadersBytes (hash : Bytes → UInt64) (headers names : List Bytes) :
    Except HeaderError (List ℕ) :=
  match resolutionStrategy headers names, names with
  | .one, [name] => do
    let index ← resolveOneName headers name
    .ok [index]
  | .two, [first, second] => resolveTwoNames headers first second
  | .scan, names => resolveNamesScan headers names
  | .indexed, names => resolveNamesIndexed hash headers names
  | _, _ => .ok []

/-- An iterator over byte strings, and the `size_hint` it promises. -/
structure Items where
  list : List Bytes
  lower : ℕ
  upper : Option ℕ
  lower_le : lower ≤ list.length
  le_upper : ∀ u, upper = some u → list.length ≤ u

def exactBound (items : Items) : Option ℕ :=
  if items.upper = some items.lower then some items.lower else none

/-- `FieldProjection::from_headers`: the selected source positions. -/
def fromHeaders (hash : Bytes → UInt64) (headers names : Items) : Except HeaderError (List ℕ) :=
  match exactBound headers, exactBound names, names.list with
  | some _, some 0, _ => .ok []
  | some headerCount, some 1, [name] =>
    if wideMapping 1 headerCount then fromHeadersBytes hash headers.list [name]
    else do
      let index ← resolveOneName headers.list name
      .ok [index]
  | some headerCount, some 2, [first, second] =>
    if wideMapping 2 headerCount then fromHeadersBytes hash headers.list [first, second]
    else resolveTwoNames headers.list first second
  | _, _, names => fromHeadersBytes hash headers.list names

end Coseva
