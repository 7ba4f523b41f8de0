/-
  Coseva — the column cache of Serde structs (`StructCache` of
  `coseva/src/serde/struct_cache.rs`).

  * `StaticKey`: a `&'static` value by its address and length;
  * `StructCache`: the header names that are validated once, and the columns that a
    struct has been seen to discard, as one word and words for the columns from 64
    on;
  * `sync`, `reset`, `beginStruct`, `noteIgnored` and `commit`: its operations;
  * `skips` and `observes`: the columns that are learned and those that are observed,
    with a lemma for what each operation does to them.
-/
import Coseva.Engine
import Coseva.Lib.Utf8

namespace Coseva

/-! ## Headers as text -/

/-- `Utf8Error`. -/
structure Utf8Error where
  validUpTo : ℕ
  errorLen : Option ℕ
  deriving DecidableEq, Repr

/-- How many bytes the character takes that a byte begins. -/
def leadWidth (lead : UInt8) : ℕ :=
  if 0xC2 ≤ lead && lead ≤ 0xDF then 2
  else if 0xE0 ≤ lead && lead ≤ 0xEF then 3
  else if 0xF0 ≤ lead && lead ≤ 0xF4 then 4
  else 1

/-- The part that begins no character ends with the bytes, inside one that could be
    valid. -/
def endsInside (bytes : Bytes) : Bool :=
  match bytes with
  | [] => false
  | lead :: _ => bytes.length == Utf8.invalidWidth bytes && decide (bytes.length < leadWidth lead)

/-- The error of `str::from_utf8` behind `index` valid bytes, over at most `fuel`
    characters. -/
def utf8ErrorFrom : ℕ → ℕ → Bytes → Option Utf8Error
  | 0, _, _ => none
  | _, _, [] => none
  | fuel + 1, index, bytes =>
    match Utf8.firstChar bytes with
    | some c => utf8ErrorFrom fuel (index + c.utf8Size) (bytes.drop c.utf8Size)
    | none => some ⟨index, if endsInside bytes then none else some (Utf8.invalidWidth bytes)⟩

/-- `str::from_utf8`: the error, if the bytes are not valid. -/
def utf8Error (bytes : Bytes) : Option Utf8Error := utf8ErrorFrom bytes.length 0 bytes

/-! ## The cache -/

/-- `AtomicKey`: the address and the length of a `&'static` value. -/
structure StaticKey where
  address : ℕ
  len : ℕ
  deriving DecidableEq, Repr

/-- `AtomicKey::unset`. -/
def StaticKey.unset : StaticKey := ⟨0, 0⟩

/-- `MAX_LEARNED_COLUMNS`. -/
def maxLearnedColumns : ℕ := 64

/-- `WideBitsets`. -/
structure WideBitsets where
  learned : List ℕ
  observing : List ℕ
  deriving DecidableEq, Repr

/-- `WideBitsets::new`. -/
def WideBitsets.new (columns : ℕ) : WideBitsets :=
  let words := (columns - maxLearnedColumns + (maxLearnedColumns - 1)) / maxLearnedColumns
  ⟨List.replicate words 0, List.replicate words 0⟩

/-- `clear_words`. -/
def clearWords (words : List ℕ) : List ℕ := words.map fun _ => 0

/-- `mask_contains`: bit `column` of a word, if the word has it. -/
def maskContains (mask column : ℕ) : Bool :=
  decide (column < maxLearnedColumns) && (mask >>> column) % 2 == 1

/-- `wide_position`. -/
def widePosition (column : ℕ) : ℕ × ℕ :=
  let offset := column - maxLearnedColumns
  (offset / maxLearnedColumns, 1 <<< (offset % maxLearnedColumns))

/-- `wide_contains`. -/
def wideContains (words : List ℕ) (column : ℕ) : Bool :=
  if column < maxLearnedColumns then false
  else
    let (word, bit) := widePosition column
    match words[word]? with
    | none => false
    | some word => word &&& bit != 0

/-- `StructCache`. -/
structure StructCache where
  /-- the names before the first that is not valid UTF-8 -/
  names : List Bytes
  invalid : Option (ℕ × Utf8Error)
  columns : ℕ
  keyFields : StaticKey
  keyName : StaticKey
  ignored : ℕ
  observing : ℕ
  wide : Option WideBitsets
  learned : Bool
  active : Bool
  deriving DecidableEq, Repr

namespace StructCache

/-- `StructCache::new`. -/
def new : StructCache where
  names := []
  invalid := none
  columns := 0
  keyFields := .unset
  keyName := .unset
  ignored := 0
  observing := 0
  wide := none
  learned := false
  active := false

/-- `reset`. -/
def reset (_ : StructCache) : StructCache := new

/-- The names of a header, up to the first that is not valid UTF-8. -/
def headerNames : ℕ → List Bytes → List Bytes × Option (ℕ × Utf8Error)
  | _, [] => ([], none)
  | column, raw :: headers =>
    match utf8Error raw with
    | some error => ([], some (column, error))
    | none =>
      let (names, invalid) := headerNames (column + 1) headers
      (raw :: names, invalid)

/-- `sync`. -/
def sync (c : StructCache) (headers : Option (List Bytes)) : StructCache :=
  match headers with
  | none => c.reset
  | some headers =>
    if c.columns = headers.length ∧ c.invalid.isNone ∧
        (c.names.zip headers).all fun (name, raw) => name == raw then c
    else
      let c := c.reset
      let columns := headers.length
      let (names, invalid) := headerNames 0 headers
      { c with
        names
        invalid
        columns
        wide := if maxLearnedColumns < columns then some (.new columns) else none }

/-- The part of `begin_struct` that takes the key of another struct. -/
def rekey (c : StructCache) (name fields : StaticKey) : StructCache :=
  { c with
    keyName := name
    keyFields := fields
    ignored := 0
    wide := c.wide.map fun wide => { wide with learned := clearWords wide.learned }
    learned := false }

/-- The part of `begin_struct` that starts an observation. -/
def startObserving (c : StructCache) : StructCache :=
  { c with
    observing := 0
    wide := c.wide.map fun wide => { wide with observing := clearWords wide.observing }
    active := true }

/-- `begin_struct`: whether learned columns may be skipped. -/
def beginStruct (c : StructCache) (name fields : StaticKey) : Bool × StructCache :=
  let c := if c.keyName ≠ name ∨ c.keyFields ≠ fields then c.rekey name fields else c
  if c.learned && c.invalid.isNone then (true, c) else (false, c.startObserving)

/-- `note_ignored`. -/
def noteIgnored (c : StructCache) (column : ℕ) : StructCache :=
  if column < maxLearnedColumns then { c with observing := c.observing ||| (1 <<< column) }
  else
    match c.wide with
    | none => c
    | some wide =>
      let (word, bit) := widePosition column
      match wide.observing[word]? with
      | none => c
      | some old => { c with wide := some { wide with observing := wide.observing.set word (old ||| bit) } }

/-- `ignored_mask`. -/
def ignoredMask (c : StructCache) : ℕ := c.ignored

/-- `wide_ignored`. -/
def wideIgnored (c : StructCache) : List ℕ := (c.wide.map (·.learned)).getD []

/-- `commit`. -/
def commit (c : StructCache) : StructCache :=
  if c.active then
    { c with
      active := false
      ignored := c.observing
      wide := c.wide.map fun wide =>
        { wide with learned :=
            List.zipWith (fun _ observed => observed) wide.learned wide.observing
              ++ wide.learned.drop wide.observing.length }
      learned := true }
  else c

/-! ## Bits -/

/-- A column is in a set of one word and wide words. -/
def holds (mask : ℕ) (words : List ℕ) (column : ℕ) : Bool :=
  maskContains mask column || wideContains words column

/-- The wide words of the observation. -/
def wideObserving (c : StructCache) : List ℕ := (c.wide.map (·.observing)).getD []

/-- The column is learned as ignored. -/
def skips (c : StructCache) (column : ℕ) : Bool := holds c.ignoredMask c.wideIgnored column

/-- The column has been observed to be ignored. -/
def observes (c : StructCache) (column : ℕ) : Bool := holds c.observing c.wideObserving column

theorem maskContains_eq (mask column : ℕ) :
    maskContains mask column = (decide (column < maxLearnedColumns) && mask.testBit column) := by
  rw [maskContains, Nat.testBit, Nat.and_comm, Nat.and_one_is_mod]
  rcases Nat.mod_two_eq_zero_or_one (mask >>> column) with h | h <;> rw [h] <;> rfl

theorem testBit_set (m i j : ℕ) : (m ||| (1 <<< i)).testBit j = (m.testBit j || decide (i = j)) := by
  rw [Nat.testBit_or, Nat.one_shiftLeft, Nat.testBit_two_pow]

theorem wideContains_eq (words : List ℕ) (column : ℕ) :
    wideContains words column = (decide (maxLearnedColumns ≤ column) &&
      (words[(column - maxLearnedColumns) / maxLearnedColumns]?).any
        (·.testBit ((column - maxLearnedColumns) % maxLearnedColumns))) := by
  unfold wideContains widePosition
  by_cases h : column < maxLearnedColumns
  · rw [if_pos h, decide_eq_false (Nat.not_le.2 h), Bool.false_and]
  · rw [if_neg h, decide_eq_true (Nat.not_lt.1 h), Bool.true_and]
    simp only
    rcases words[(column - maxLearnedColumns) / maxLearnedColumns]? with _ | word
    · rfl
    · rw [Option.any_some, Nat.one_shiftLeft]
      show (word &&& 2 ^ _ != 0) = _
      rw [Nat.and_two_pow]
      cases word.testBit ((column - maxLearnedColumns) % maxLearnedColumns) with
      | true => simp
      | false => simp

/-- No column is in a set of words that are zero. -/
theorem holds_zero {words : List ℕ} (h : ∀ w ∈ words, w = 0) (column : ℕ) :
    holds 0 words column = false := by
  rw [holds, maskContains_eq, wideContains_eq, Nat.zero_testBit, Bool.and_false, Bool.false_or,
    Bool.and_eq_false_iff]
  refine Or.inr ?_
  rcases hget : words[(column - maxLearnedColumns) / maxLearnedColumns]? with _ | word
  · rfl
  · rw [Option.any_some, h word (List.mem_of_getElem? hget), Nat.zero_testBit]

theorem clearWords_zero (words : List ℕ) : ∀ w ∈ clearWords words, w = 0 := by
  intro w hw
  obtain ⟨_, -, rfl⟩ := List.mem_map.1 hw
  rfl

/-! ## The operations on the columns -/

variable (c : StructCache)

/-- Noting a column adds no other, and changes nothing but the observation. -/
theorem noteIgnored_eq (column : ℕ) :
    ∃ observing wide, c.noteIgnored column = { c with observing, wide } ∧
      wide.map (·.learned) = c.wide.map (·.learned) := by
  unfold noteIgnored
  split_ifs
  · exact ⟨_, c.wide, rfl, rfl⟩
  · split
    · exact ⟨c.observing, c.wide, rfl, rfl⟩
    · rename_i wide hwide
      simp only
      split
      · exact ⟨c.observing, c.wide, rfl, rfl⟩
      · exact ⟨c.observing, _, rfl, by rw [hwide]; rfl⟩

theorem skips_noteIgnored (column : ℕ) : (c.noteIgnored column).skips = c.skips := by
  obtain ⟨observing, wide, heq, hwide⟩ := c.noteIgnored_eq column
  funext other
  rw [heq, skips, skips, wideIgnored, wideIgnored, hwide]
  rfl

theorem observes_noteIgnored (column other : ℕ)
    (h : (c.noteIgnored column).observes other = true) :
    other = column ∨ c.observes other = true := by
  unfold noteIgnored at h
  by_cases hnarrow : column < maxLearnedColumns
  · rw [if_pos hnarrow, observes, holds, maskContains_eq, testBit_set, Bool.or_eq_true] at h
    rcases h with h | h
    · simp only [Bool.and_eq_true, Bool.or_eq_true, decide_eq_true_eq] at h
      rcases h.2 with h' | rfl
      · refine Or.inr ?_
        rw [observes, holds, maskContains_eq, h', decide_eq_true h.1]
        rfl
      · exact Or.inl rfl
    · refine Or.inr ?_
      rw [observes, holds, Bool.or_eq_true]
      exact Or.inr h
  rw [if_neg hnarrow] at h
  rcases hwide : c.wide with _ | wide
  · rw [hwide] at h
    exact Or.inr h
  rw [hwide] at h
  simp only [widePosition] at h
  rcases hget : wide.observing[(column - maxLearnedColumns) / maxLearnedColumns]? with _ | old
  · rw [hget] at h
    exact Or.inr h
  rw [hget] at h
  rw [observes, holds, Bool.or_eq_true] at h ⊢
  rcases h with h | h
  · exact Or.inr (Or.inl h)
  rw [wideContains_eq] at h ⊢
  simp only [wideObserving, Option.map_some, Option.getD_some, hwide, Bool.and_eq_true,
    decide_eq_true_eq] at h ⊢
  obtain ⟨hge, h⟩ := h
  obtain ⟨hword, -⟩ := List.getElem?_eq_some_iff.1 hget
  by_cases hsame : (column - maxLearnedColumns) / maxLearnedColumns =
      (other - maxLearnedColumns) / maxLearnedColumns
  · rw [← hsame, List.getElem?_set_self hword, Option.any_some, testBit_set, Bool.or_eq_true,
      decide_eq_true_eq] at h
    rcases h with h | h
    · refine Or.inr (Or.inr ⟨hge, ?_⟩)
      rw [← hsame, hget, Option.any_some]
      exact h
    · refine Or.inl ?_
      have hdiv := Nat.div_add_mod (column - maxLearnedColumns) maxLearnedColumns
      have hdiv' := Nat.div_add_mod (other - maxLearnedColumns) maxLearnedColumns
      rw [hsame, h] at hdiv
      omega
  · rw [List.getElem?_set_ne hsame] at h
    exact Or.inr (Or.inr ⟨hge, h⟩)

/-- What is learned by a commit has been observed, or was learned before. -/
theorem skips_commit (column : ℕ) (h : c.commit.skips column = true) :
    (c.active = true ∧ c.observes column = true) ∨ c.skips column = true := by
  unfold commit at h
  cases hactive : c.active with
  | false => rw [hactive] at h; exact Or.inr h
  | true =>
    rw [hactive, if_pos rfl, skips, holds, Bool.or_eq_true] at h
    rcases h with h | h
    · refine Or.inl ⟨rfl, ?_⟩
      rw [observes, holds, Bool.or_eq_true]
      exact Or.inl h
    rcases hwide : c.wide with _ | wide
    · rw [wideContains_eq, wideIgnored, hwide] at h
      simp at h
    rw [wideContains_eq] at h
    simp only [wideIgnored, hwide, Option.map_some, Option.getD_some, Bool.and_eq_true] at h
    obtain ⟨hge, h⟩ := h
    generalize hword : (column - maxLearnedColumns) / maxLearnedColumns = word at h
    rw [List.getElem?_append, List.length_zipWith] at h
    by_cases hin : word < min wide.learned.length wide.observing.length
    · rw [if_pos hin, List.getElem?_zipWith] at h
      refine Or.inl ⟨rfl, ?_⟩
      rw [observes, holds, Bool.or_eq_true, wideContains_eq, hge, hword]
      simp only [wideObserving, hwide, Option.map_some, Option.getD_some, Bool.true_and]
      refine Or.inr ?_
      rw [List.getElem?_eq_getElem (by omega), List.getElem?_eq_getElem (by omega)] at h
      rw [List.getElem?_eq_getElem (by omega)]
      exact h
    · rw [if_neg hin, List.getElem?_drop] at h
      refine Or.inr ?_
      rw [skips, holds, Bool.or_eq_true, wideContains_eq, hge, hword]
      simp only [wideIgnored, hwide, Option.map_some, Option.getD_some, Bool.true_and]
      refine Or.inr ?_
      by_cases hlong : wide.observing.length ≤ wide.learned.length
      · rwa [Nat.min_eq_right hlong,
          show wide.observing.length + (word - wide.observing.length) = word by omega] at h
      · rw [List.getElem?_eq_none (by omega)] at h
        exact Bool.noConfusion h

theorem skips_rekey (name fields : StaticKey) (column : ℕ) :
    (c.rekey name fields).skips column = false := by
  refine holds_zero (fun w hw => ?_) column
  rw [wideIgnored, rekey, Option.map_map] at hw
  rcases hwide : c.wide with _ | wide
  · rw [hwide] at hw
    cases hw
  · rw [hwide] at hw
    exact clearWords_zero _ w hw

theorem skips_startObserving (column : ℕ) : c.startObserving.skips column = c.skips column := by
  rw [skips, skips, wideIgnored, wideIgnored, startObserving, Option.map_map]
  rfl

theorem observes_startObserving (column : ℕ) : c.startObserving.observes column = false := by
  refine holds_zero (fun w hw => ?_) column
  rw [wideObserving, startObserving, Option.map_map] at hw
  rcases hwide : c.wide with _ | wide
  · rw [hwide] at hw
    cases hw
  · rw [hwide] at hw
    exact clearWords_zero _ w hw

/-- What `begin_struct` leaves: the key of the struct, and either what was learned under that
    key, or an observation that is empty. -/
theorem beginStruct_eq (name fields : StaticKey) :
    let r := c.beginStruct name fields
    r.2.keyName = name ∧ r.2.keyFields = fields ∧
      (r.2.names, r.2.invalid, r.2.columns) = (c.names, c.invalid, c.columns) ∧
      (∀ column, r.2.skips column = true →
        c.skips column = true ∧ c.keyName = name ∧ c.keyFields = fields) ∧
      if r.1 then r.2 = c ∧ c.invalid = none
      else r.2.active = true ∧ ∀ column, r.2.observes column = false := by
  unfold beginStruct
  by_cases hkey : c.keyName ≠ name ∨ c.keyFields ≠ fields
  · have hlearned : (c.rekey name fields).learned = false := rfl
    simp only [if_pos hkey, hlearned, Bool.false_and, Bool.false_eq_true, ↓reduceIte]
    refine ⟨rfl, rfl, rfl, fun column h => ?_, rfl, fun column => observes_startObserving _ column⟩
    rw [skips_startObserving, skips_rekey] at h
    exact Bool.noConfusion h
  · obtain ⟨hname, hfields⟩ := not_or.1 hkey
    rw [not_not] at hname hfields
    simp only [if_neg hkey]
    by_cases hlearned : (c.learned && c.invalid.isNone) = true
    · rw [if_pos hlearned]
      exact ⟨hname, hfields, rfl, fun column h => ⟨h, hname, hfields⟩, rfl,
        Option.isNone_iff_eq_none.1 (Bool.and_eq_true_iff.1 hlearned).2⟩
    · rw [if_neg hlearned]
      refine ⟨hname, hfields, rfl, fun column h => ?_, rfl, observes_startObserving c⟩
      rw [skips_startObserving] at h
      exact ⟨h, hname, hfields⟩

/-- A cache that has learned nothing observes. -/
theorem beginStruct_fresh (name fields : StaticKey) (h : c.learned = false) :
    (c.beginStruct name fields).1 = false := by
  unfold beginStruct
  by_cases hkey : c.keyName ≠ name ∨ c.keyFields ≠ fields
  · simp only [if_pos hkey, rekey, Bool.false_and, Bool.false_eq_true, ↓reduceIte]
  · simp only [if_neg hkey, h, Bool.false_and, Bool.false_eq_true, ↓reduceIte]

/-! ## Headers -/

/-- The cache holds the names of the headers. -/
structure Synced (headers : List Bytes) (c : StructCache) : Prop where
  names : (c.names, c.invalid) = headerNames 0 headers
  columns : c.columns = headers.length

theorem headerNames_valid {column : ℕ} {headers names : List Bytes}
    (h : headerNames column headers = (names, none)) : names = headers := by
  induction headers generalizing column names with
  | nil =>
    cases h
    rfl
  | cons raw headers ih =>
    rw [headerNames] at h
    rcases hraw : utf8Error raw with _ | error
    · rw [hraw] at h
      simp only [Prod.mk.injEq] at h
      obtain ⟨rfl, hinvalid⟩ := h
      exact congrArg (raw :: ·) (ih (Prod.ext rfl hinvalid))
    · rw [hraw] at h
      cases h

/-- The names are a front of the headers. -/
theorem headerNames_prefix (column : ℕ) (headers : List Bytes) :
    (headerNames column headers).1 <+: headers := by
  induction headers generalizing column with
  | nil => exact List.prefix_rfl
  | cons raw headers ih =>
    rw [headerNames]
    rcases utf8Error raw with _ | error
    · exact (List.prefix_cons_inj raw).2 (ih (column + 1))
    · exact List.nil_prefix

theorem new_synced : Synced [] new := ⟨rfl, rfl⟩

theorem skips_new (column : ℕ) : new.skips column = false :=
  holds_zero (fun w hw => by cases hw) column

theorem new_sync_learned (headers : List Bytes) : (new.sync (some headers)).learned = false := by
  rw [sync]
  simp only [apply_ite StructCache.learned]
  exact ite_self false

/-- Synchronizing with the headers the cache holds keeps it, or starts it anew. -/
theorem sync_synced (headers : List Bytes) {held : List Bytes} (h : c.Synced held) :
    (c.sync (some headers)).Synced headers ∧
      (c.sync (some headers) = c ∨
        (c.sync (some headers)).active = false ∧
          ∀ column, (c.sync (some headers)).skips column = false) := by
  unfold sync
  simp only
  by_cases hsame : c.columns = headers.length ∧ c.invalid.isNone ∧
      (c.names.zip headers).all fun (name, raw) => name == raw
  · rw [if_pos hsame]
    refine ⟨?_, Or.inl rfl⟩
    obtain ⟨hcolumns, hinvalid, hnames⟩ := hsame
    have hvalid := h.names
    rw [Option.isNone_iff_eq_none.1 hinvalid] at hvalid
    have hall := headerNames_valid hvalid.symm
    have hlen : c.names.length = headers.length := by
      rw [hall, ← h.columns, hcolumns]
    have heq : c.names = headers := by
      refine List.ext_getElem hlen fun i hi hi' => ?_
      have hmem : (c.names[i], headers[i]) ∈ c.names.zip headers := by
        rw [← List.getElem_zip (h := by rw [List.length_zip]; omega)]
        exact List.getElem_mem _
      exact beq_iff_eq.1 (List.all_eq_true.1 hnames _ hmem)
    rw [← heq, hall]
    exact h
  · rw [if_neg hsame]
    refine ⟨⟨rfl, rfl⟩, Or.inr ⟨rfl, fun column => ?_⟩⟩
    refine holds_zero (fun w hw => ?_) column
    rw [wideIgnored] at hw
    split_ifs at hw
    · exact (List.mem_replicate.1 hw).2
    · cases hw

end StructCache

end Coseva
