/-
  Coseva — the owned parse path moves forward (`coseva/src/engine/owned_parser.rs`): whatever
  the dialect, the limits and the kernels that were picked, a record that is read ends behind
  its first byte and within the document.

  * `Onward`: the cursor behind a position, of an engine that is changed nowhere else;
  * `PrefixParser.run_within`, `OwnedParser.run_within`: what the kernels take;
  * `parseOwnedRecordMode_advances`: the record at a position.
-/
import Coseva.OwnedDefault
import Coseva.OwnedRead
import Coseva.Progress

namespace Coseva

open Structural (Stop)

/-! ## What the kernels take -/

section kernels

variable {input : Bytes}

/-- A kernel that has read a record has taken bytes of it, and one that has read its head none
    behind the window. -/
def Within (input : Bytes) (taken : ℕ × Bool) : Prop :=
  taken.1 ≤ input.length ∧ (taken.2 = true → 0 < taken.1)

theorem lt_of_find {cursor offset : ℕ} {p : UInt8 → Bool}
    (h : (input.drop cursor).findIdx? p = some offset) : cursor + offset < input.length := by
  have hlt := (List.findIdx?_eq_some_iff_getElem.mp h).1
  rw [List.length_drop] at hlt
  omega

/-- What stands behind a closing quote. -/
theorem getElem?_lt {i : ℕ} {byte : UInt8} (h : input[i]? = some byte) : i < input.length :=
  (List.getElem?_eq_some_iff.mp h).1

theorem Structural.quotedPrefixLoop_within {checkFieldLimit : Bool} {maxFieldBytes maxFields : ℕ}
    (fuel : ℕ) : ∀ {location : ℕ} {bytes : Bytes} {ends : List ℕ} {r : ℕ × Bool × Bytes × List ℕ},
      Structural.quotedPrefixLoop checkFieldLimit input maxFieldBytes maxFields fuel location bytes ends =
        some r → Within input (r.1, r.2.1) := by
  induction fuel with
  | zero =>
    intro location bytes ends r h
    cases h
  | succ fuel ih =>
    intro location bytes ends r h
    rw [Structural.quotedPrefixLoop] at h
    simp only [bind, Option.bind_eq_some_iff] at h
    obtain ⟨first, hfirst, h⟩ := h
    split_ifs at h
    · cases h
      exact ⟨Nat.le_of_lt (getElem?_lt hfirst), fun h => absurd h Bool.false_ne_true⟩
    · obtain ⟨⟨bytes', closing⟩, hquoted, h⟩ := Option.bind_eq_some_iff.mp h
      obtain ⟨ends', -, h⟩ := Option.bind_eq_some_iff.mp h
      simp only at h
      split at h
      · exact ih h
      · rename_i hnext
        cases h
        exact ⟨getElem?_lt hnext, fun _ => Nat.succ_pos _⟩
      · split_ifs at h with hfeed
        cases h
        exact ⟨getElem?_lt hfeed, fun _ => Nat.succ_pos _⟩
      · cases h

theorem Structural.interiorPrefixLoop_within {checkFieldLimit : Bool} {maxFieldBytes maxFields : ℕ}
    (fuel : ℕ) : ∀ {location : ℕ} {bytes : Bytes} {ends : List ℕ} {r : ℕ × Bool × Bytes × List ℕ},
      Structural.interiorPrefixLoop checkFieldLimit input maxFieldBytes maxFields fuel location bytes ends =
        some r → Within input (r.1, r.2.1) := by
  induction fuel with
  | zero =>
    intro location bytes ends r h
    cases h
  | succ fuel ih =>
    intro location bytes ends r h
    rw [Structural.interiorPrefixLoop] at h
    simp only [bind, Option.bind_eq_some_iff] at h
    obtain ⟨first, -, h⟩ := h
    split_ifs at h with hquote
    · obtain ⟨offset, hfind, h⟩ := Option.bind_eq_some_iff.mp h
      have hlt := lt_of_find hfind
      generalize (if byteAt input (location + offset) = 10 ∧ location + offset > location ∧
        byteAt input (location + offset - 1) = 13 then location + offset - 1
        else location + offset) = fieldEnd at h
      split_ifs at h
      · obtain ⟨ends', -, h⟩ := Option.bind_eq_some_iff.mp h
        cases h
        exact ⟨hlt, fun _ => Nat.succ_pos _⟩
      · obtain ⟨ends', -, h⟩ := Option.bind_eq_some_iff.mp h
        exact ih h
    · obtain ⟨⟨bytes', closing⟩, hquoted, h⟩ := Option.bind_eq_some_iff.mp h
      obtain ⟨ends', -, h⟩ := Option.bind_eq_some_iff.mp h
      simp only at h
      split at h
      · rename_i hnext
        cases h
        exact ⟨getElem?_lt hnext, fun h => absurd h Bool.false_ne_true⟩
      · rename_i hnext
        cases h
        exact ⟨getElem?_lt hnext, fun _ => Nat.succ_pos _⟩
      · split_ifs at h with hfeed
        cases h
        exact ⟨getElem?_lt hfeed, fun _ => Nat.succ_pos _⟩
      · cases h

theorem Structural.recordLoop_within {checkFieldLimit : Bool} {maxFieldBytes maxFields : ℕ}
    (fuel : ℕ) : ∀ {location : ℕ} {bytes : Bytes} {ends : List ℕ} {r : ℕ × Bytes × List ℕ},
      Structural.recordLoop checkFieldLimit input maxFieldBytes maxFields fuel location bytes ends =
        some r → Within input (r.1, true) := by
  induction fuel with
  | zero =>
    intro location bytes ends r h
    cases h
  | succ fuel ih =>
    intro location bytes ends r h
    rw [Structural.recordLoop] at h
    simp only [bind, Option.bind_eq_some_iff] at h
    obtain ⟨first, -, h⟩ := h
    split_ifs at h with hquote
    · obtain ⟨⟨bytes', closing⟩, hquoted, h⟩ := Option.bind_eq_some_iff.mp h
      obtain ⟨ends', -, h⟩ := Option.bind_eq_some_iff.mp h
      simp only at h
      split at h
      · exact ih h
      · rename_i hnext
        cases h
        exact ⟨getElem?_lt hnext, fun _ => Nat.succ_pos _⟩
      · split_ifs at h with hfeed
        cases h
        exact ⟨getElem?_lt hfeed, fun _ => Nat.succ_pos _⟩
      · cases h
    · obtain ⟨offset, hfind, h⟩ := Option.bind_eq_some_iff.mp h
      have hlt := lt_of_find hfind
      generalize (if byteAt input (location + offset) = 10 ∧ location + offset > location ∧
        byteAt input (location + offset - 1) = 13 then location + offset - 1
        else location + offset) = fieldEnd at h
      split_ifs at h
      · obtain ⟨ends', -, h⟩ := Option.bind_eq_some_iff.mp h
        cases h
        exact ⟨hlt, fun _ => Nat.succ_pos _⟩
      · obtain ⟨ends', -, h⟩ := Option.bind_eq_some_iff.mp h
        exact ih h

theorem Structural.namedRecordLoop_within {delimiter : UInt8} {backslash checkFieldLimit : Bool}
    (fuel : ℕ) : ∀ {location : ℕ} {bytes : Bytes} {ends : List ℕ} {r : ℕ × Bytes × List ℕ},
      Structural.namedRecordLoop delimiter backslash checkFieldLimit input fuel location bytes ends =
        some r → Within input (r.1, true) := by
  induction fuel with
  | zero =>
    intro location bytes ends r h
    cases h
  | succ fuel ih =>
    intro location bytes ends r h
    rw [Structural.namedRecordLoop] at h
    simp only [bind, Option.bind_eq_some_iff] at h
    obtain ⟨first, -, h⟩ := h
    split_ifs at h with hquote
    · obtain ⟨⟨bytes', closing⟩, -, h⟩ := Option.bind_eq_some_iff.mp h
      obtain ⟨ends', -, h⟩ := Option.bind_eq_some_iff.mp h
      obtain ⟨next, hnext, h⟩ := Option.bind_eq_some_iff.mp h
      split_ifs at h with hdelimiter hfeed hreturn
      · exact ih h
      · cases h
        exact ⟨getElem?_lt hnext, fun _ => Nat.succ_pos _⟩
      · cases h
        exact ⟨getElem?_lt hreturn.2, fun _ => Nat.succ_pos _⟩
    · obtain ⟨offset, hfind, h⟩ := Option.bind_eq_some_iff.mp h
      have hlt := lt_of_find hfind
      generalize (if byteAt input (location + offset) = 10 ∧ location + offset > location ∧
        byteAt input (location + offset - 1) = 13 then location + offset - 1
        else location + offset) = fieldEnd at h
      split_ifs at h
      · obtain ⟨ends', -, h⟩ := Option.bind_eq_some_iff.mp h
        cases h
        exact ⟨hlt, fun _ => Nat.succ_pos _⟩
      · obtain ⟨ends', -, h⟩ := Option.bind_eq_some_iff.mp h
        exact ih h

/-- What is taken of the first bytes. -/
theorem Within.of_take {n : ℕ} {taken : ℕ × Bool} (h : Within (input.take n) taken) :
    Within input taken := by
  refine ⟨h.1.trans ?_, h.2⟩
  rw [List.length_take]
  exact Nat.min_le_right _ _

theorem tryParseDefaultRecord_within {checkFieldLimit : Bool} {storage storage' : Structural.Output}
    {consumed : ℕ}
    (h : Coseva.tryParseDefaultRecord checkFieldLimit input storage = some (consumed, storage')) :
    Within input (consumed, true) := by
  unfold Coseva.tryParseDefaultRecord Structural.tryParseDefaultRecord at h
  obtain ⟨⟨location, bytes, ends⟩, hloop, h⟩ := Option.bind_eq_some_iff.mp h
  cases h
  exact (Structural.recordLoop_within _ hloop).of_take

theorem OwnedParser.run_within {parser : OwnedParser} {storage storage' : Structural.Output}
    {consumed : ℕ} (h : parser.run input storage = some (consumed, storage')) :
    Within input (consumed, true) := by
  cases parser with
  | default checkFieldLimit => exact tryParseDefaultRecord_within h
  | defaultWindowed => exact tryParseDefaultRecord_within h
  | named delimiter backslash checkFieldLimit =>
    unfold OwnedParser.run Structural.tryParseNamedDialectRecord at h
    obtain ⟨⟨location, bytes, ends⟩, hloop, h⟩ := Option.bind_eq_some_iff.mp h
    cases h
    exact (Structural.namedRecordLoop_within _ hloop).of_take

/-- The structural kernel takes a record of its block of 64 bytes. -/
theorem tryParseDefaultQuotedRecordStructural_within {avx2 checkFieldLimit preserve certify : Bool}
    {storage storage' : Structural.Output} {maxFieldBytes : ℕ} {taken : ℕ × Bool}
    (h : Structural.tryParseDefaultQuotedRecordStructural avx2 checkFieldLimit preserve certify input
      storage maxFieldBytes = (.ok taken, storage')) : Within input taken := by
  have hreads := Structural.tryParseDefaultQuotedRecordStructural_reads avx2 checkFieldLimit preserve
    certify input storage maxFieldBytes
  rw [h] at hreads
  obtain ⟨fields, hrecord, -, -⟩ := hreads
  have hrest := Rfc.Rest.record_iff.mp hrecord
  exact ⟨Rfc.Rest.le_length hrest, fun _ => Rfc.Rest.lt hrest⟩

theorem PrefixParser.run_within {host : Host} {parser : PrefixParser}
    {storage storage' : Structural.Output} {taken : ℕ × Bool}
    (h : parser.run host input storage = .ok (taken, storage')) : Within input taken := by
  have helim : ∀ {o : Option ((ℕ × Bool) × Structural.Output)},
      o.elim (Except.error Stop.declined) Except.ok = .ok (taken, storage') →
        o = some (taken, storage') := by
    intro o ho
    cases o with
    | none => cases ho
    | some p =>
      cases ho
      rfl
  have hinterior : ∀ checkFieldLimit,
      Coseva.tryParseDefaultInteriorPrefix checkFieldLimit input storage = .ok (taken, storage') →
        Within input taken := by
    intro checkFieldLimit h
    obtain ⟨⟨location, finished, bytes, ends⟩, hloop, h⟩ := Option.bind_eq_some_iff.mp (helim h)
    cases h
    exact (Structural.interiorPrefixLoop_within _ hloop).of_take
  have hstructural : ∀ checkFieldLimit,
      tryParseDefaultStructuralAppending host checkFieldLimit input storage = .ok (taken, storage') →
        Within input taken := by
    intro checkFieldLimit h
    unfold tryParseDefaultStructuralAppending at h
    rcases hrun : Structural.tryParseDefaultQuotedRecordStructural host.structural checkFieldLimit true
      false input storage input.length with ⟨(_ | _) | parsed, output'⟩ <;> rw [hrun] at h
    · simp only at h
      split at h
      · rename_i hscalar
        cases h
        exact tryParseDefaultRecord_within hscalar
      · cases h
    · cases h
    · cases h
      exact tryParseDefaultQuotedRecordStructural_within hrun
  cases parser with
  | quoted checkFieldLimit =>
    obtain ⟨⟨location, finished, bytes, ends⟩, hloop, h⟩ := Option.bind_eq_some_iff.mp (helim h)
    cases h
    exact (Structural.quotedPrefixLoop_within _ hloop).of_take
  | interior checkFieldLimit => exact hinterior _ h
  | interiorWindowed => exact hinterior _ h
  | structural checkFieldLimit => exact hstructural _ h
  | structuralWindowed => exact hstructural _ h

theorem tryParseDefaultInteriorAscii_within {host : Host} {storage storage' : Structural.Output}
    {taken : ℕ × Bool}
    (h : tryParseDefaultInteriorAscii host input storage = (.ok taken, storage')) :
    Within input taken := tryParseDefaultQuotedRecordStructural_within h

theorem Structural.plainPackedBlocks_within (fuel : ℕ) :
    ∀ {consumed : ℕ} {ascii : Bool} {bytes : Bytes} {ends : List ℕ} {r : ℕ × Bool × Bytes × List ℕ},
      Structural.plainPackedBlocks input fuel consumed ascii bytes ends = some r →
        Within input (r.1, true) := by
  induction fuel with
  | zero =>
    intro consumed ascii bytes ends r h
    cases h
  | succ fuel ih =>
    intro consumed ascii bytes ends r h
    rw [Structural.plainPackedBlocks] at h
    simp only at h
    split_ifs at h with hshort hquote
    split at h
    · rename_i recordEnd hhead
      cases h
      have hmem := List.mem_of_head? hhead
      obtain ⟨hget, -⟩ := List.mem_filter.mp hmem
      have hlt := List.mem_range.mp hget
      refine ⟨?_, fun _ => Nat.succ_pos _⟩
      rw [List.length_take, List.length_drop] at hlt
      show consumed + recordEnd + 1 ≤ input.length
      omega
    · exact ih h

theorem tryParseDefaultPlainPacked_within {available certifyAscii : Bool}
    {storage storage' : Structural.Output} {consumed : ℕ}
    (h : Structural.tryParseDefaultPlainPacked available certifyAscii input storage =
      (some consumed, storage')) : Within input (consumed, true) := by
  unfold Structural.tryParseDefaultPlainPacked at h
  split_ifs at h
  · split at h
    · rename_i hblocks
      cases h
      exact Structural.plainPackedBlocks_within _ hblocks
    · cases h
  · cases h

end kernels

namespace Engine

open Run

/-! ## Engines that move onward -/

/-- An engine without what the owned parsers change of it. -/
def aside (e : Engine) : Engine :=
  { e with
    location := 0
    expectedFields := none
    interiorPrefixParser := none
    interiorQuotes := 0
    asciiStructuralBackoff := 0
    asciiStructuralSucceeded := false }

/-- The cursor is behind a position and within the document, and the rest is as it was. -/
structure Onward (input : Bytes) (pos : ℕ) (rest e : Engine) : Prop where
  le : pos ≤ e.location
  inside : e.location ≤ input.length
  aside : e.aside = rest

/-- Runs that go onward, and what holds where they succeed. -/
abbrev Advances (input : Bytes) (pos : ℕ) (rest : Engine) {α : Type} (Q : α → Engine → Prop)
    (x : Parse α) : Prop :=
  ∀ e, Onward input pos rest e →
    Ends (fun _ => Onward input pos rest) (fun a e' => Onward input pos rest e' ∧ Q a e') (x e)

/-- The cursor is past a byte of the document, if there is one. -/
def PastByte (input : Bytes) (pos : ℕ) (e : Engine) : Prop := pos < input.length → pos < e.location

/-- A parser that has read the record is past a byte. -/
def Read {β : Type} (input : Bytes) (pos : ℕ) (r : Bool × β) (e : Engine) : Prop :=
  r.1 = true → PastByte input pos e

variable {cfg : ParserSettings} {F : CsvFormat} {input : Bytes} {pos : ℕ} {rest e : Engine}

theorem read_false {β : Type} {b : β} : Read input pos (false, b) e :=
  fun h => absurd h Bool.false_ne_true

namespace Advances

variable {α β : Type} {P Q : α → Engine → Prop} {R : β → Engine → Prop} {x y : Parse α}
  {f : α → Parse β}

theorem throw' (fault : Fault) : Advances input pos rest Q (throw fault) := fun _ he => he

/-- Behind a run, from the states that it ends in. -/
theorem bind (hx : Advances input pos rest P x)
    (hf : ∀ a e, Onward input pos rest e → P a e →
      Ends (fun _ => Onward input pos rest) (fun b e' => Onward input pos rest e' ∧ R b e') (f a e)) :
    Advances input pos rest R (x >>= f) :=
  fun e he => (hx e he).bind fun a e' h => hf a e' h.1 h.2

theorem get_bind {g : Engine → Parse α} (hg : ∀ e, Onward input pos rest e →
      Ends (fun _ => Onward input pos rest) (fun a e' => Onward input pos rest e' ∧ Q a e') (g e e)) :
    Advances input pos rest Q (get >>= g) := fun e he => hg e he

theorem ite {c : Prop} [Decidable c] (hx : Advances input pos rest Q x)
    (hy : Advances input pos rest Q y) : Advances input pos rest Q (if c then x else y) := by
  split_ifs
  · exact hx
  · exact hy

end Advances

/-- A run that leaves the engine as it is. -/
def Looks {α : Type} (x : Parse α) : Prop := ∀ e, Ends (fun _ e' => e' = e) (fun _ e' => e' = e) (x e)

namespace Looks

variable {α β : Type} {x y : Parse α} {f : α → Parse β}

theorem pure' (a : α) : Looks (pure a : Parse α) := fun _ => rfl

theorem errorFor' (kind : ErrorKind) (byte field : ℕ) :
    Looks (errorFor input kind byte field : Parse α) := fun _ => rfl

theorem ite {c : Prop} [Decidable c] (hx : Looks x) (hy : Looks y) :
    Looks (if c then x else y) := by
  split_ifs
  · exact hx
  · exact hy

/-- What follows a look happens where the look did. -/
theorem bind {E : Fault → Engine → Prop} {Q : β → Engine → Prop} (hx : Looks x)
    (hE : ∀ fault, E fault e) (hf : ∀ a, Ends E Q (f a e)) : Ends E Q ((x >>= f) e) := by
  refine Ends.bind (P := fun _ e' => e' = e) ((hx e).mono (fun fault e' h => h ▸ hE fault) fun _ _ h => h) ?_
  intro a e' h
  rw [h]
  exact hf a

end Looks

/-! ## Plain records -/

theorem checkRecordLimitFor_looks (recordStart byte field : ℕ) :
    Looks (checkRecordLimitFor cfg input recordStart byte field) :=
  .ite (.errorFor' _ _ _) (.pure' _)

theorem pushOwnedField_looks (output : OwnedOutput) (start stop byte : ℕ) :
    Looks (pushOwnedField cfg input output start stop byte) :=
  .ite (.errorFor' _ _ _) (.ite (.errorFor' _ _ _) (.pure' _))

theorem pushOwnedUnquoted_looks (output : OwnedOutput) (start stop byte : ℕ) (nulls : Nulls) :
    Looks (pushOwnedUnquoted cfg input output start stop byte nulls) :=
  .ite (.ite (.errorFor' _ _ _) (.pure' _)) (pushOwnedField_looks _ _ _ _)

theorem Onward.moved {location : ℕ} (h : Onward input pos rest e) (hle : pos ≤ location)
    (hin : location ≤ input.length) : Onward input pos rest { e with location } :=
  ⟨hle, hin, h.aside⟩

section plain

variable {recordStart : ℕ}

theorem endOwnedPlain_advances {fieldStart fieldEnd at' location : ℕ} (output : OwnedOutput)
    (hle : recordStart ≤ location) (hin : location ≤ input.length) (hpast : PastByte input recordStart { e with location })
    (he : Onward input recordStart rest e) :
    Ends (fun _ => Onward input recordStart rest)
      (fun r e' => Onward input recordStart rest e' ∧ Read input recordStart r e')
      (endOwnedPlain cfg input recordStart fieldStart fieldEnd at' location output e) := by
  have hmoved := he.moved hle hin
  unfold endOwnedPlain
  refine (pushOwnedField_looks _ _ _ _).bind (fun _ => he) fun output => ?_
  rw [bind_ok (setLocation_apply ..)]
  refine (checkRecordLimitFor_looks _ _ _).bind (fun _ => hmoved) fun _ => ?_
  exact ⟨hmoved, fun _ => hpast⟩

theorem ownedPlainLoop_advances {scanEnd : ℕ} (hscan : scanEnd ≤ input.length)
    (found : List (ℕ × UInt8)) :
    ∀ (fieldStart : ℕ) (output : OwnedOutput),
      (∀ p ∈ found, recordStart ≤ p.1 ∧ p.1 < input.length) →
      Advances input recordStart rest (Read input recordStart)
        (ownedPlainLoop cfg F input recordStart scanEnd fieldStart output found) := by
  induction found with
  | nil =>
    intro fieldStart output _ e he
    have hle := he.le
    have hin := he.inside
    rw [ownedPlainLoop]
    split_ifs with hmore
    · exact he
    · exact endOwnedPlain_advances output (by omega) hscan (fun h => by simp only; omega) he
  | cons first found ih =>
    intro fieldStart output hfound
    obtain ⟨cursor, byte⟩ := first
    obtain ⟨hle, hlt⟩ := hfound _ List.mem_cons_self
    simp only at hle hlt
    have hrest : ∀ p ∈ found, recordStart ≤ p.1 ∧ p.1 < input.length :=
      fun p hp => hfound p (List.mem_cons_of_mem _ hp)
    rw [ownedPlainLoop]
    refine .ite (.ite (.ite ?_ (ih _ _ hrest)) (.ite (ih _ _ hrest) ?_)) (.ite (.ite ?_ ?_) (.ite ?_ (ih _ _ hrest)))
    · exact fun e he => he
    · exact fun e he => (pushOwnedField_looks _ _ _ _).bind (fun _ => he) fun output =>
        ih _ output hrest e he
    · exact fun e he => he
    · intro e he
      rw [bind_ok (setLocation_apply ..)]
      exact ⟨he.moved hle (Nat.le_of_lt hlt), read_false⟩
    · intro e he
      exact endOwnedPlain_advances output (by omega) hlt (fun _ => by simp only; omega) he

theorem ownedPlainFrom_advances {resume : ℕ} (hresume : recordStart ≤ resume) (output : OwnedOutput) :
    Advances input recordStart rest (Read input recordStart)
      (ownedPlainFrom cfg F input recordStart resume output) := by
  refine ownedPlainLoop_advances (Nat.min_le_left _ _) _ _ _ fun p hp => ?_
  obtain ⟨h1, h2⟩ := structuralMatches_within _ _ _ p hp
  unfold slice at h2
  rw [List.length_drop, List.length_take] at h2
  omega

/-- Where a kernel has taken bytes of the record. -/
theorem Onward.taken {taken : ℕ × Bool} (h : Onward input pos rest e) {start : ℕ} (hstart : pos ≤ start)
    (hin : start ≤ input.length) (ht : Within (input.drop start) taken) :
    Onward input pos rest { e with location := start + taken.1 } ∧
      (taken.2 = true → PastByte input pos { e with location := start + taken.1 }) := by
  have hle := ht.1
  rw [List.length_drop] at hle
  refine ⟨h.moved (by omega) (by omega), fun hdone _ => ?_⟩
  have := ht.2 hdone
  simp only
  omega

theorem defaultCsvOwnedPlain_advances (hin : recordStart ≤ input.length) (certifyAscii : Bool)
    (output : OwnedOutput) : Advances input recordStart rest (Read input recordStart)
      (defaultCsvOwnedPlain cfg input certifyAscii recordStart output) := by
  refine Advances.get_bind fun e he => ?_
  split_ifs
  · rcases hrun : Structural.tryParseDefaultPlainPacked cfg.host.packed certifyAscii
      (input.drop recordStart) output.storage with ⟨_ | consumed, storage⟩
    · exact ⟨he, read_false⟩
    · obtain ⟨hmoved, hpast⟩ := he.taken (Nat.le_refl _) hin (tryParseDefaultPlainPacked_within hrun)
      simp only
      rw [bind_ok (setLocation_apply ..)]
      exact ⟨hmoved, fun _ => hpast rfl⟩
  · exact ⟨he, read_false⟩

theorem ownedPlain_advances (hin : recordStart ≤ input.length) (certifyAscii : Bool)
    (output : OwnedOutput) : Advances input recordStart rest (Read input recordStart)
      (ownedPlain cfg F input certifyAscii recordStart output) := by
  have hthen : ∀ (r : Bool × OwnedOutput) (e : Engine), Onward input recordStart rest e →
      Read input recordStart r e → Ends (fun _ => Onward input recordStart rest)
        (fun r e' => Onward input recordStart rest e' ∧ Read input recordStart r e')
        ((if r.1 = true then pure (true, r.2)
          else ownedPlainFrom cfg F input recordStart recordStart r.2 : Parse (Bool × OwnedOutput)) e) := by
    rintro ⟨parsed, output⟩ e he hread
    cases parsed with
    | true => exact ⟨he, hread⟩
    | false => exact ownedPlainFrom_advances (Nat.le_refl _) _ e he
  refine .ite ((defaultCsvOwnedPlain_advances hin _ _).bind fun r e he hread => hthen r e he hread) ?_
  exact fun e he => hthen (false, output) e he read_false

end plain

/-! ## The field-by-field parser -/

theorem skipSpaces_advances {recordStart field : ℕ} (fuel : ℕ) :
    Advances input pos rest (fun _ _ => True) (skipSpaces cfg input recordStart field fuel) := by
  induction fuel with
  | zero => exact .throw' _
  | succ fuel ih =>
    refine Advances.get_bind fun e he => ?_
    split_ifs with hspace
    · have hlt := getElem?_lt hspace
      have hle := he.le
      have hmoved : Onward input pos rest { e with location := e.location + 1 } :=
        he.moved (by omega) hlt
      rw [set_bind]
      exact (checkRecordLimitFor_looks _ _ _).bind (fun _ => hmoved) fun _ => ih _ hmoved
    · exact ⟨he, trivial⟩

theorem skipDelimiterSpaces_advances {recordStart : ℕ} :
    Advances input pos rest (fun _ _ => True) (skipDelimiterSpaces cfg input F recordStart) := by
  refine Advances.get_bind fun e he => ?_
  split_ifs
  · exact ⟨he, trivial⟩
  · exact skipSpaces_advances _ e he

theorem validateFieldCount_advances {Q : Engine → Prop} (actual : ℕ) (he : Onward input pos rest e)
    (hQ : ∀ e', e'.location = e.location → Q e') :
    Ends (fun _ => Onward input pos rest) (fun _ e' => Onward input pos rest e' ∧ Q e')
      (validateFieldCount cfg input actual e) := by
  have hexact : ∀ expected, Ends (fun _ => Onward input pos rest)
      (fun _ e' => Onward input pos rest e' ∧ Q e')
      ((if actual = expected then pure ()
        else error input (.fieldCountMismatch expected actual) e.location : Parse Unit) e) := by
    intro expected
    split_ifs
    · exact ⟨he, hQ e rfl⟩
    · exact he
  unfold validateFieldCount
  rw [get_bind]
  cases cfg.fieldCount with
  | flexible => exact ⟨he, hQ e rfl⟩
  | exact expected => exact hexact expected
  | matchFirst =>
    cases e.expectedFields with
    | none => exact ⟨⟨he.le, he.inside, he.aside⟩, hQ _ rfl⟩
    | some expected => exact hexact expected

/-- A field leaves the cursor past a byte of the document. -/
theorem Onward.past_of_lt (h : Onward input pos rest e) {location : ℕ}
    (hlt : e.location < location) : PastByte input pos { e with location } :=
  fun _ => Nat.lt_of_le_of_lt h.le hlt

theorem parseOwnedUnquotedField_advances {recordStart : ℕ} (header : Bool) (output : OwnedOutput) :
    Advances input pos rest (fun _ => PastByte input pos)
      (parseOwnedUnquotedField cfg input recordStart header output) := by
  refine Advances.get_bind fun e he => ?_
  have hle := he.le
  by_cases hover : e.location > scanEnd cfg input recordStart e.location
  · rw [if_pos hover]
    exact he
  rw [if_neg hover]
  generalize (if header = true then Nulls.none else cfg.nulls) = nulls
  generalize hspecial : (if (cfg.syntax'.quotingEnabled && !cfg.syntax'.permitsUnquotedQuotes) = true then
      find3 cfg.dialect.delimiter cfg.dialect.quote cfg.dialect.recordEnding.byte
        (slice input e.location (scanEnd cfg input recordStart e.location))
    else find2 cfg.dialect.delimiter cfg.dialect.recordEnding.byte
      (slice input e.location (scanEnd cfg input recordStart e.location))) = special
  rcases special with _ | relative
  · -- the scan has reached the end of the document, or breached a limit
    have hend : scanEnd cfg input recordStart e.location ≤ input.length := by
      unfold scanEnd
      omega
    have hcheck : Ends (fun _ e' => e' = e)
        (fun _ e' => e' = e ∧ scanEnd cfg input recordStart e.location = input.length)
        (checkScanEndFor cfg input (scanEnd cfg input recordStart e.location) recordStart e.location
          output.len e) := by
      unfold checkScanEndFor
      split_ifs with hfield
      · rfl
      unfold checkRecordLimitFor
      split_ifs with hrecord
      · rfl
      · refine ⟨rfl, ?_⟩
        unfold scanEnd at hfield hrecord ⊢
        omega
    simp only
    refine (hcheck.mono (fun _ _ h => h ▸ he) fun _ _ h => h).bind fun _ e' h => ?_
    obtain ⟨rfl, hfull⟩ := h
    refine (pushOwnedUnquoted_looks _ _ _ _ _).bind (fun _ => he) fun output => ?_
    rw [bind_ok (setLocation_apply ..)]
    refine ⟨he.moved (by omega) hend, fun hpos => ?_⟩
    show pos < scanEnd cfg input recordStart e'.location
    omega
  · simp only
    have hlt : e.location + relative < input.length := by
      have hfound : relative < (slice input e.location (scanEnd cfg input recordStart e.location)).length := by
        split_ifs at hspecial
        · exact (List.findIdx?_eq_some_iff_getElem.mp hspecial).1
        · exact (List.findIdx?_eq_some_iff_getElem.mp hspecial).1
      unfold slice scanEnd at hfound
      rw [List.length_drop, List.length_take] at hfound
      omega
    have hmoved : Onward input pos rest { e with location := e.location + relative + 1 } :=
      he.moved (by omega) hlt
    generalize hEnd : (if (byteAt input (e.location + relative) == cfg.dialect.recordEnding.byte &&
      cfg.dialect.recordEnding == .newline) = true then _ else _) = fieldEnd
    split_ifs
    · exact he
    · refine (pushOwnedUnquoted_looks _ _ _ _ _).bind (fun _ => he) fun output => ?_
      rw [bind_ok (setLocation_apply ..)]
      refine (checkRecordLimitFor_looks _ _ _).bind (fun _ => hmoved) fun _ => ?_
      exact ⟨hmoved, he.past_of_lt (by omega)⟩

theorem endOwnedRecord_advances {recordStart location field : ℕ} (hle : pos ≤ location)
    (hin : location ≤ input.length) (hpast : PastByte input pos { e with location })
    (he : Onward input pos rest e) :
    Ends (fun _ => Onward input pos rest) (fun _ e' => Onward input pos rest e' ∧ PastByte input pos e')
      (endOwnedRecord cfg input recordStart location field e) := by
  have hmoved := he.moved hle hin
  unfold endOwnedRecord
  rw [bind_ok (setLocation_apply ..)]
  exact (checkRecordLimitFor_looks _ _ _).bind (fun _ => hmoved) fun _ => ⟨hmoved, hpast⟩

theorem finishOwnedQuotedField_advances {recordStart fieldCount afterQuote : ℕ}
    (hlt : pos < afterQuote) (hin : afterQuote ≤ input.length) :
    Advances input pos rest (fun _ => PastByte input pos)
      (finishOwnedQuotedField cfg input fieldCount recordStart afterQuote) := by
  intro e he
  obtain ⟨hle, hin'⟩ := skipPostQuoteWhitespace_le cfg.syntax'.permitsTrailingWhitespace hin
  unfold finishOwnedQuotedField
  simp only
  generalize skipPostQuoteWhitespace input cfg.syntax'.permitsTrailingWhitespace afterQuote = behind
    at hle hin'
  have hends : ∀ {location : ℕ}, behind ≤ location → location ≤ input.length →
      Ends (fun _ => Onward input pos rest) (fun _ e' => Onward input pos rest e' ∧ PastByte input pos e')
        (endOwnedRecord cfg input recordStart location fieldCount e) := fun hle' hin =>
    endOwnedRecord_advances (by omega) hin (fun _ => by simp only; omega) he
  rcases hnext : input[behind]? with _ | next
  · exact hends (Nat.le_refl _) hin'
  · have hlt' := getElem?_lt hnext
    simp only
    split_ifs with hdelimiter hending hreturn
    · rw [bind_ok (setLocation_apply ..)]
      exact ⟨he.moved (by omega) hlt', fun _ => Nat.lt_succ_of_le (by omega)⟩
    · exact hends (Nat.le_succ _) hlt'
    · exact hends (by omega) (getElem?_lt hreturn.2.2)
    · exact he

theorem checkScanEndFor_looks (byte recordStart fieldStart field : ℕ) :
    Looks (checkScanEndFor cfg input byte recordStart fieldStart field) :=
  .ite (.errorFor' _ _ _) (checkRecordLimitFor_looks _ _ _)

theorem endOwnedScan_advances {recordStart contentStart field : ℕ} {Q : Bool × OwnedFields → Engine → Prop} :
    Advances input pos rest Q (endOwnedScan cfg input recordStart contentStart field) :=
  fun _ he => (checkScanEndFor_looks _ _ _ _).bind (fun _ => he) fun _ => he

theorem ownedQuotedLoop_advances {recordStart contentStart : ℕ} (fuel : ℕ) :
    ∀ (segmentStart cursor : ℕ) (output : OwnedFields), pos ≤ cursor →
      Advances input pos rest (fun _ => PastByte input pos)
        (ownedQuotedLoop cfg input recordStart contentStart fuel segmentStart cursor output) := by
  induction fuel with
  | zero => exact fun _ _ _ _ => .throw' _
  | succ fuel ih =>
    intro segmentStart cursor output hle
    rw [ownedQuotedLoop]
    refine .ite endOwnedScan_advances (.ite (.throw' _) ?_)
    rcases hfind : findQuoted cfg.dialect (slice input cursor (scanEnd cfg input recordStart contentStart)) with
      _ | relative
    · exact endOwnedScan_advances
    · have hlt := findQuoted_lt hfind
      have hscan : scanEnd cfg input recordStart contentStart ≤ input.length := Nat.min_le_left _ _
      simp only
      cases quotedStop input cfg.toFormatSettings (scanEnd cfg input recordStart contentStart)
        (cursor + relative) with
      | invalid kind at' => exact fun e he => he
      | escaped byte => exact ih _ _ _ (by omega)
      | closing =>
        refine (finishOwnedQuotedField_advances (by omega) (by omega)).bind fun recordEnd e he hpast => ?_
        exact ⟨he, hpast⟩

theorem appendOwnedQuotedField_advances {recordStart : ℕ} (output : OwnedOutput) :
    Advances input pos rest (fun _ => PastByte input pos)
      (appendOwnedQuotedField cfg input recordStart output) := by
  refine Advances.bind (P := fun _ => PastByte input pos) ?_ fun r e he hpast => ⟨he, hpast⟩
  refine Advances.get_bind fun e he => ?_
  have hle := he.le
  split_ifs
  · exact he
  · exact ownedQuotedLoop_advances _ _ _ _ (by omega) e he

theorem ownedFieldsLoop_advances {recordStart : ℕ} (header : Bool) (fuel : ℕ) : ∀ output : OwnedOutput,
    Advances input pos rest (fun _ => PastByte input pos)
      (ownedFieldsLoop cfg F input recordStart header fuel output) := by
  induction fuel with
  | zero => exact fun _ => .throw' _
  | succ fuel ih =>
    intro output
    refine skipDelimiterSpaces_advances.bind fun _ e he _ => ?_
    rw [get_bind]
    have hnext : ∀ (r : Bool × OwnedOutput) (e : Engine), Onward input pos rest e → PastByte input pos e →
        Ends (fun _ => Onward input pos rest) (fun _ e' => Onward input pos rest e' ∧ PastByte input pos e')
          ((if r.1 = true then do
              validateFieldCount cfg input r.2.len
              pure r.2
            else ownedFieldsLoop cfg F input recordStart header fuel r.2 : Parse OwnedOutput) e) := by
      intro r e he hpast
      split_ifs
      · refine (validateFieldCount_advances r.2.len he fun e' he' => ?_).bind fun _ e' h => h
        exact fun hpos => he' ▸ hpast hpos
      · exact ih _ e he
    split_ifs
    · exact (appendOwnedQuotedField_advances output).bind (fun r e he hpast => hnext r e he hpast) e he
    · exact (parseOwnedUnquotedField_advances header output).bind
        (fun r e he hpast => hnext r e he hpast) e he

/-! ## Records with quotes -/

section record

variable {recordStart : ℕ}

theorem resumeOwnedLoop_advances (parse : PrefixParser) (fuel : ℕ) : ∀ output : OwnedOutput,
    Advances input recordStart rest (Read input recordStart)
      (resumeOwnedLoop cfg F input parse recordStart fuel output) := by
  induction fuel with
  | zero => exact fun _ => .throw' _
  | succ fuel ih =>
    intro output
    refine Advances.get_bind fun e he => ?_
    have hle := he.le
    cases hwindow : ownedResumeWindow cfg input recordStart e.location with
    | none => exact ⟨he, read_false⟩
    | some window =>
      obtain ⟨n, rfl⟩ : ∃ n, window = (input.drop e.location).take n := by
        unfold ownedResumeWindow at hwindow
        simp only at hwindow
        split_ifs at hwindow
        refine ⟨min input.length (recordStart + cfg.limits.maxRecordBytes) - e.location, ?_⟩
        rw [← Option.some.inj hwindow, slice, List.drop_take]
      simp only
      rcases hrun : parse.run cfg.host ((input.drop e.location).take n) output.storage with
        (_ | _) | ⟨⟨consumed, _ | _⟩, storage⟩
      · exact ⟨he, read_false⟩
      · exact he
      all_goals
        obtain ⟨hmoved, hpast⟩ := he.taken hle he.inside (PrefixParser.run_within hrun).of_take
        simp only
        rw [bind_ok (setLocation_apply ..)]
      · refine (ownedPlainFrom_advances (by omega) _).bind (fun r e he hread => ?_) _ hmoved
        split_ifs with hparsed
        · exact ⟨he, fun _ => hread hparsed⟩
        · exact ih _ e he
      · exact ⟨hmoved, fun _ => hpast rfl⟩

theorem resumeOwnedAfterInteriorQuote_advances (output : OwnedOutput) :
    Advances input recordStart rest (Read input recordStart)
      (resumeOwnedAfterInteriorQuote cfg F input recordStart output) := by
  refine Advances.get_bind fun e he => ?_
  cases e.quotedPrefixParser with
  | none => exact ⟨he, read_false⟩
  | some parse => exact resumeOwnedLoop_advances parse _ _ e he

theorem predictQuotes_advances (parser : Engine → Option PrefixParser) :
    Advances input recordStart rest (fun _ _ => True) (predictQuotes parser) :=
  fun _ he => ⟨⟨he.le, he.inside, he.aside⟩, trivial⟩

theorem finishOwnedRecord_advances (header : Bool) (output : OwnedOutput)
    (he : Onward input recordStart rest e) (hpast : PastByte input recordStart e) :
    Ends (fun _ => Onward input recordStart rest)
      (fun r e' => Onward input recordStart rest e' ∧ Read input recordStart r e')
      (finishOwnedRecord cfg F input header output e) := by
  unfold finishOwnedRecord
  refine (validateFieldCount_advances _ he fun e' he' => ?_).bind fun _ e' h => ⟨h.1, fun _ => h.2⟩
  exact fun hpos => he' ▸ hpast hpos

theorem runOwnedParser_advances (hin : recordStart ≤ input.length) (output : OwnedOutput) :
    Advances input recordStart rest (Read input recordStart)
      (runOwnedParser input recordStart output) := by
  refine Advances.get_bind fun e he => ?_
  cases e.ownedParser with
  | none => exact ⟨he, read_false⟩
  | some parse =>
    simp only
    rcases hrun : parse.run (input.drop recordStart) output.storage with _ | ⟨consumed, storage⟩
    · exact ⟨he, read_false⟩
    · obtain ⟨hmoved, hpast⟩ := he.taken (Nat.le_refl _) hin (OwnedParser.run_within hrun)
      simp only
      rw [bind_ok (setLocation_apply ..)]
      exact ⟨hmoved, fun _ => hpast rfl⟩

theorem parseOwnedInteriorPrefix_advances (hin : recordStart ≤ input.length) (header : Bool)
    (output : OwnedOutput) : Advances input recordStart rest (Read input recordStart)
      (parseOwnedInteriorPrefix cfg F input recordStart header output) := by
  refine Advances.get_bind fun e he => ?_
  cases e.interiorPrefixParser with
  | none => exact runOwnedParser_advances hin output e he
  | some parse =>
    simp only
    rcases hrun : parse.run cfg.host (input.drop recordStart) output.storage with
      (_ | _) | ⟨⟨consumed, _ | _⟩, storage⟩
    · exact ⟨he, read_false⟩
    · exact he
    all_goals
      obtain ⟨hmoved, hpast⟩ := he.taken (Nat.le_refl _) hin (PrefixParser.run_within hrun)
      simp only
      rw [bind_ok (setLocation_apply ..)]
    · refine (ownedPlainFrom_advances (Nat.le_add_right _ _) _).bind (fun r e he hread => ?_) _ hmoved
      split_ifs with hparsed
      · exact finishOwnedRecord_advances header _ he (hread hparsed)
      · refine (predictQuotes_advances _).bind (fun _ e he _ => ?_) e he
        refine (resumeOwnedAfterInteriorQuote_advances _).bind (fun r e he hread => ?_) e he
        split_ifs with hparsed
        · exact finishOwnedRecord_advances header _ he (hread hparsed)
        · exact ⟨he, read_false⟩
    · exact ⟨hmoved, fun _ => hpast rfl⟩

theorem parseOwnedQuotedPrefix_advances (hin : recordStart ≤ input.length) (header : Bool)
    (output : OwnedOutput) : Advances input recordStart rest (Read input recordStart)
      (parseOwnedQuotedPrefix cfg F input recordStart header output) := by
  refine Advances.get_bind fun e he => ?_
  cases e.quotedPrefixParser with
  | none => exact runOwnedParser_advances hin output e he
  | some parse =>
    simp only
    rcases hrun : parse.run cfg.host (input.drop recordStart) output.storage with
      (_ | _) | ⟨⟨consumed, _ | _⟩, storage⟩
    · exact ⟨he, read_false⟩
    · exact he
    · refine (ownedPlainFrom_advances (Nat.le_add_right _ _) _).bind (fun r e he hread => ?_) e he
      split_ifs with hparsed
      · exact finishOwnedRecord_advances header _ he (hread hparsed)
      · refine (predictQuotes_advances _).bind (fun _ e he _ => ?_) e he
        exact resumeOwnedAfterInteriorQuote_advances _ e he
    · obtain ⟨hmoved, hpast⟩ := he.taken (Nat.le_refl _) hin (PrefixParser.run_within hrun)
      simp only
      rw [bind_ok (setLocation_apply ..)]
      exact ⟨hmoved, fun _ => hpast rfl⟩

theorem parseOwnedPlainRecord_advances (hin : recordStart ≤ input.length) (certifyAscii header : Bool)
    (output : OwnedOutput) : Advances input recordStart rest (Read input recordStart)
      (parseOwnedPlainRecord cfg F input certifyAscii recordStart header output) := by
  refine (ownedPlain_advances hin _ _).bind fun r e he hread => ?_
  obtain ⟨parsed, output⟩ := r
  simp only
  split_ifs with hparsed
  · exact finishOwnedRecord_advances header _ he (hread hparsed)
  · refine (predictQuotes_advances _).bind (fun _ e he _ => ?_) e he
    exact resumeOwnedAfterInteriorQuote_advances _ e he

theorem certifyInterior_advances (hin : recordStart ≤ input.length) (output : OwnedOutput) :
    Advances input recordStart rest (Read input recordStart)
      (certifyInterior cfg input recordStart output) := by
  refine Advances.get_bind fun e he => ?_
  by_cases hbackoff : e.asciiStructuralBackoff ≠ 0
  · rw [if_pos hbackoff]
    exact ⟨⟨he.le, he.inside, he.aside⟩, read_false⟩
  · rw [if_neg hbackoff]
    rcases hrun : tryParseDefaultInteriorAscii cfg.host (input.drop recordStart) output.storage with
      ⟨(_ | _) | ⟨consumed, _ | _⟩, storage⟩
    · exact ⟨⟨he.le, he.inside, he.aside⟩, read_false⟩
    · exact he
    · exact ⟨⟨he.le, he.inside, he.aside⟩, read_false⟩
    · obtain ⟨hmoved, hpast⟩ :=
        he.taken (Nat.le_refl _) hin (tryParseDefaultInteriorAscii_within hrun)
      exact ⟨⟨hmoved.le, hmoved.inside, hmoved.aside⟩, fun _ => hpast rfl⟩

theorem parseOwnedKernels_advances (hin : recordStart ≤ input.length) (certifyAscii header : Bool)
    (output : OwnedOutput) : Advances input recordStart rest (Read input recordStart)
      (parseOwnedKernels cfg F input certifyAscii recordStart header output) := by
  refine Advances.get_bind fun e he => ?_
  by_cases hquoted : ((cfg.fmt F).syntax'.quotingEnabled &&
    (byteAt input recordStart == (cfg.fmt F).dialect.quote || e.interiorQuotes != 0)) = true
  swap
  · rw [if_neg hquoted]
    exact parseOwnedPlainRecord_advances hin _ _ _ e he
  rw [if_pos hquoted, set_bind]
  have hset : Onward input recordStart rest { e with interiorQuotes := e.interiorQuotes - 1 } :=
    ⟨he.le, he.inside, he.aside⟩
  have hthen : ∀ (r : Bool × OwnedOutput) (e : Engine), Onward input recordStart rest e →
      Read input recordStart r e → Ends (fun _ => Onward input recordStart rest)
        (fun r e' => Onward input recordStart rest e' ∧ Read input recordStart r e')
        ((if r.1 = true then pure (true, r.2)
          else if (byteAt input recordStart == (cfg.fmt F).dialect.quote) = true then
            parseOwnedQuotedPrefix cfg F input recordStart header r.2
          else parseOwnedInteriorPrefix cfg F input recordStart header r.2 :
            Parse (Bool × OwnedOutput)) e) := by
    intro r e he hread
    split_ifs with hparsed
    · exact ⟨he, fun _ => hread hparsed⟩
    · exact parseOwnedQuotedPrefix_advances hin _ _ e he
    · exact parseOwnedInteriorPrefix_advances hin _ _ e he
  by_cases hcertify : (certifyAscii &&
    !(byteAt input recordStart == (cfg.fmt F).dialect.quote)) = true
  · rw [if_pos hcertify]
    exact (certifyInterior_advances hin output).bind (fun r e he hread => hthen r e he hread) _ hset
  · rw [if_neg hcertify]
    exact hthen (false, output) _ hset read_false

/-- **A record is read onward**, past a byte, whichever kernels take part in it. -/
theorem parseOwnedRecordMode_advances (hin : recordStart ≤ input.length) (certifyAscii header : Bool)
    (output : OwnedOutput) : Advances input recordStart rest (fun _ => PastByte input recordStart)
      (parseOwnedRecordMode cfg F input certifyAscii recordStart header output) := by
  have hthen : ∀ (r : Bool × OwnedOutput) (e : Engine), Onward input recordStart rest e →
      Read input recordStart r e → Ends (fun _ => Onward input recordStart rest)
        (fun _ e' => Onward input recordStart rest e' ∧ PastByte input recordStart e')
        ((if r.1 = true then pure r.2
          else ownedFieldsLoop cfg F input recordStart header (input.length + 2) r.2 :
            Parse OwnedOutput) e) := by
    intro r e he hread
    split_ifs with hparsed
    · exact ⟨he, hread hparsed⟩
    · exact ownedFieldsLoop_advances header _ _ e he
  refine .ite ?_ fun e he => hthen (false, output) e he read_false
  exact (parseOwnedKernels_advances hin _ _ _).bind fun r e he hread => hthen r e he hread

end record

/-! ## The next record -/

/-- What a read of a record from `e` leaves behind: it lies ahead of the cursor, holds a byte and
    ends where the parser then stands, within the document. -/
structure OwnedAhead (input : Bytes) (e : Engine) (record : OwnedRecord) (e' : Engine) : Prop where
  le : e.location ≤ record.start
  lt : record.start < record.stop
  stop : record.stop = e'.location
  inside : e'.location ≤ input.length
  failed : e'.failed = e.failed
  headers : e'.headersInitialized = e.headersInitialized
  ignored : e'.resume.ignored = false
  cursorStart : e'.cursorStart = e.cursorStart
  recordIndex : e'.recordIndex = e.recordIndex + 1
  lineBase : e'.lineBase = e.lineBase
  lineOrigin : e'.lineOrigin = e.lineOrigin

/-- The parts of the engine that only whole records change. -/
abbrev RestKept (e e' : Engine) : Prop :=
  e'.failed = e.failed ∧ e'.headersInitialized = e.headersInitialized ∧
    e'.cursorStart = e.cursorStart ∧ e'.recordIndex = e.recordIndex ∧ e'.lineBase = e.lineBase ∧
    e'.lineOrigin = e.lineOrigin

theorem Onward.restKept {next : Engine} (h : Onward input pos next.aside e) :
    RestKept next e ∧ e.resume = next.resume := by
  have haside := h.aside
  unfold Engine.aside at haside
  refine ⟨⟨?_, ?_, ?_, ?_, ?_, ?_⟩, ?_⟩
  all_goals injections

theorem restKept_of_skipped {next : Engine} (h : Skipped input e next) : RestKept e next := by
  rw [h.kept]
  exact ⟨rfl, rfl, rfl, rfl, rfl, rfl⟩

/-- The parser behind the comments and blank lines at its cursor. -/
def skippedOn (cfg : ParserSettings) (input : Bytes) (e : Engine) : Engine :=
  if cfg.skipsRecords then skipIgnoredRecords cfg input e else e

variable (hs : cfg.dialect.Sound)

include hs

theorem skippedOn_skipped (hin : e.location ≤ input.length) (hfree : e.resume.ignored = false) :
    Skipped input e (skippedOn cfg input e) := by
  unfold skippedOn
  split_ifs
  · exact skipIgnoredRecords_skipped hs hin (Or.inl hfree)
  · exact .refl hin (Or.inl hfree)

theorem nextPhysicalRecord_moves (header : Bool) (hfailed : e.failed = false)
    (hin : e.location ≤ input.length) (hfree : e.resume.ignored = false) :
    Ends (fun _ _ => True)
      (fun r e' => ∀ record, r = some record → OwnedAhead input e (copied record header) e')
      (nextPhysicalRecord cfg input header e) := by
  have hskipped := skippedOn_skipped hs hin hfree
  generalize hnext : skippedOn cfg input e = next at hskipped
  have hfill : fillRecordSpans cfg none input header e =
      if next.location = input.length then .ok none next
      else (some <$> parsePositionedRecord cfg none input header) next := by
    have hcheck : checkFailed input e = .ok () e := if_neg (by simp [hfailed])
    unfold fillRecordSpans
    rw [bind_ok hcheck, modify_bind, get_bind]
    unfold skippedOn at hnext
    rw [hnext]
    split_ifs
    · rfl
    · rfl
  unfold nextPhysicalRecord
  by_cases hend : next.location = input.length
  · rw [if_pos hend] at hfill
    rw [bind_ok hfill]
    exact fun record hsome => by cases hsome
  rw [if_neg hend] at hfill
  have hlt := Nat.lt_of_le_of_ne hskipped.inside hend
  have hmoves := parsePositionedRecord_moves hs cfg.follows_none (e := next) header hskipped.inside
  rcases hrun : parsePositionedRecord cfg none input header next with ⟨range, e'⟩ | ⟨fault, e'⟩
  swap
  · rw [map_error hrun] at hfill
    rw [bind_error hfill]
    trivial
  rw [map_ok hrun] at hfill
  rw [bind_ok hfill]
  rw [hrun] at hmoves
  obtain ⟨hstart, hstop, hpassed, -⟩ := hmoves
  have hfree' : next.resume.ignored = false := by
    rcases hskipped.quiet with h | ⟨hat, -⟩
    · exact h
    · exact absurd hat hend
  rintro record hsome
  obtain rfl := Option.some.inj hsome
  obtain ⟨hfailed', hheaders', hcursor', hindex', hbase', horigin'⟩ := restKept_of_skipped hskipped
  have hstart' : range.1 = next.location := hstart
  have hstop' : range.2.1 = e'.location := hstop
  constructor
  · exact hstart' ▸ hskipped.le
  · show range.1 < range.2.1
    rw [hstart', hstop']
    exact hpassed.lt hlt
  · exact hstop'
  · exact hpassed.inside
  · exact hpassed.failed.trans hfailed'
  · exact hpassed.headers.trans hheaders'
  · exact (congrArg ResumeState.ignored hpassed.resume).trans hfree'
  · exact hpassed.cursorStart.trans hcursor'
  · exact hpassed.recordIndex.trans (congrArg (· + 1) hindex')
  · exact hpassed.lineBase.trans hbase'
  · exact hpassed.lineOrigin.trans horigin'

theorem readPhysicalStorageMode_moves (certifyAscii header : Bool) (hfailed : e.failed = false)
    (hin : e.location ≤ input.length) (hfree : e.resume.ignored = false) :
    Ends (fun _ _ => True) (fun r e' => ∀ record, r = some record → OwnedAhead input e record e')
      (readPhysicalStorageMode cfg F input certifyAscii header e) := by
  unfold readPhysicalStorageMode
  by_cases hgeneral : cfg.fmtGeneralParsing F = true
  · rw [if_pos hgeneral]
    unfold readPhysicalStorageGeneral
    refine (nextPhysicalRecord_moves hs header hfailed hin hfree).bind fun r e' h => ?_
    rintro record hsome
    obtain ⟨record', hrecord', rfl⟩ := Option.map_eq_some_iff.mp hsome
    have hahead := h record' hrecord'
    exact ⟨hahead.le, hahead.lt, hahead.stop, hahead.inside, hahead.failed, hahead.headers,
      hahead.ignored, hahead.cursorStart, hahead.recordIndex, hahead.lineBase, hahead.lineOrigin⟩
  · rw [if_neg hgeneral]
    have hskipped := skippedOn_skipped hs hin hfree
    unfold skippedOn at hskipped
    have hcheck : checkFailed input e = .ok () e := if_neg (by simp [hfailed])
    rw [bind_ok hcheck, modify_bind, get_bind]
    generalize (if cfg.skipsRecords = true then skipIgnoredRecords cfg input e else e) = next
      at hskipped ⊢
    by_cases hend : next.location = input.length
    · rw [if_pos hend]
      exact fun record hsome => by cases hsome
    rw [if_neg hend]
    have hlt := Nat.lt_of_le_of_ne hskipped.inside hend
    have hadvances := @parseOwnedRecordMode_advances cfg F input next.aside next.location
      hskipped.inside certifyAscii header OwnedOutput.new next ⟨Nat.le_refl _, hskipped.inside, rfl⟩
    rcases hrun : parseOwnedRecordMode cfg F input certifyAscii next.location header OwnedOutput.new next with
      ⟨output, e'⟩ | ⟨fault, e'⟩
    swap
    · have hfails : ∃ fault e', failing (parseOwnedRecordMode cfg F input certifyAscii next.location
          header OwnedOutput.new) next = .error fault e' := by
        unfold failing
        rw [hrun]
        cases fault with
        | error kind location => exact ⟨_, _, rfl⟩
        | panic => exact ⟨_, _, rfl⟩
        | stuck => exact ⟨_, _, rfl⟩
      obtain ⟨fault, e'', hfails⟩ := hfails
      rw [bind_error hfails]
      trivial
    rw [hrun] at hadvances
    obtain ⟨honward, hpast⟩ := hadvances
    have hok : failing (parseOwnedRecordMode cfg F input certifyAscii next.location header
        OwnedOutput.new) next = .ok output e' := by
      unfold failing
      rw [hrun]
    rw [bind_ok hok, get_bind, set_bind]
    rintro record hsome
    obtain rfl := Option.some.inj hsome
    obtain ⟨hfailed', hheaders', hcursor', hindex', hbase', horigin'⟩ := restKept_of_skipped hskipped
    obtain ⟨⟨hfailed'', hheaders'', hcursor'', hindex'', hbase'', horigin''⟩, hresume⟩ := honward.restKept
    have hfree' : next.resume.ignored = false := by
      rcases hskipped.quiet with h | ⟨hat, -⟩
      · exact h
      · exact absurd hat hend
    constructor
    · exact hskipped.le
    · exact hpast hlt
    · rfl
    · exact honward.inside
    · exact hfailed''.trans hfailed'
    · exact hheaders''.trans hheaders'
    · exact (congrArg ResumeState.ignored hresume).trans hfree'
    · exact hcursor''.trans hcursor'
    · exact congrArg (· + 1) (hindex''.trans hindex')
    · exact hbase''.trans hbase'
    · exact horigin''.trans horigin'

/-- **The record that the cursor is on** lies ahead, and the parser may read on behind it. -/
theorem readByteRecordInto_moves (h : Poised input e) :
    Ends (fun _ _ => True) (fun record e' => OwnedAhead input e.positioned record e' ∧ Poised input e')
      (readByteRecordInto cfg F input e.positioned) := by
  have hrewind : rewindToCurrent e.positioned = .ok () e.positioned := by
    unfold rewindToCurrent
    simp [positioned]
  unfold readByteRecordInto readCurrent
  rw [get_bind]
  change Ends _ _ ((rewindToCurrent >>= _) e.positioned)
  rw [bind_ok hrewind]
  have hstorage := @readPhysicalStorageMode_moves cfg F input e.positioned hs false false h.failed h.inside
    h.ignored
  refine hstorage.bind fun r e' hahead => ?_
  cases r with
  | none => trivial
  | some record =>
    have hahead := hahead record rfl
    refine ⟨hahead, hahead.failed.trans h.failed, hahead.headers.trans h.headers, hahead.ignored,
      hahead.inside, ?_⟩
    rw [hahead.cursorStart]
    intro hsame
    have hle := hahead.le
    have hlt := hahead.lt
    have hstop := hahead.stop
    have hat : e.location = e'.location := Option.some.inj hsame
    have hle' : e.location ≤ record.start := hle
    omega

/-- **A parser that may read** moves to the next record, or is at the end of the document. -/
theorem advance_moves (h : Poised input e) :
    ∃ next : Engine, e.location ≤ next.location ∧ next.location ≤ input.length ∧
      next.recordIndex = e.recordIndex ∧ next.lineBase = e.lineBase ∧ next.lineOrigin = e.lineOrigin ∧
      if next.location = input.length then advance cfg F input e = .ok false next
      else advance cfg F input e = .ok true next.positioned ∧ Poised input next := by
  have hfailed : checkFailed input e = .ok () e := if_neg (by simp [h.failed])
  have hheaders : ensureHeaders cfg input e = .ok () e := by
    unfold ensureHeaders
    rw [get_bind, if_pos h.headers]
    rfl
  have hsettle : settle cfg F input e = .ok () e := by
    unfold settle
    rw [get_bind, if_neg (Ne.symm h.settled)]
    rfl
  have hadvance : advance cfg F input e = position cfg input e := by
    unfold advance
    rw [bind_ok hfailed, bind_ok hheaders, bind_ok hsettle]
  have hskipped := skipToRecord_skipped hs h.inside h.ignored
  obtain ⟨hfailed', hheaders', -, hindex', hbase', horigin'⟩ := restKept_of_skipped hskipped
  refine ⟨{ skipToRecord cfg input e with cursorStart := none }, hskipped.le, hskipped.inside, hindex',
    hbase', horigin', ?_⟩
  rw [hadvance]
  unfold position
  rw [modify_bind, get_bind]
  simp only
  split_ifs with hend
  · rfl
  · refine ⟨rfl, hfailed'.trans h.failed, hheaders'.trans h.headers, ?_, hskipped.inside, fun h => by cases h⟩
    rcases hskipped.quiet with hfree | ⟨hat, -⟩
    · exact hfree
    · exact absurd hat hend

end Engine

end Coseva
