/-
  Coseva — an index that is saved is loaded as it was.

  * `decodes_format`, `decodes_header`: what is encoded is decoded;
  * `Admits`: what the loader asks of the positions, one after the other;
  * `CsvIndex.WellFormed`: what it asks of an index;
  * `CsvIndex.load_save`, `CsvIndex.load_ok`: a well-formed index is loaded as it
    was saved, and what is loaded is well formed;
  * `CsvIndexReader.new_eq`: the reader of a file that loads has its positions.
-/
import Coseva.IndexFile

namespace Coseva

open Decode Run

namespace IndexFormat

/-! ## Reads -/

theorem decodes_take {n : ℕ} {text : Bytes} (h : text.length = n) :
    Decodes (IndexFormat.take n) text text := Decodes.take h

theorem decodes_byte (b : UInt8) : Decodes byte [b] b :=
  Decodes.map (decodes_take (n := 1) (List.length_singleton (a := b)))

theorem decodes_u32 {n : ℕ} (h : n < 2 ^ 32) : Decodes u32 (toLe 4 n) n := by
  have := (decodes_take (length_toLe 4 n)).map (g := ofLe)
  rwa [ofLe_toLe_of_lt (by omega)] at this

theorem ofNat_ofLe_u64Bytes (n : UInt64) : UInt64.ofNat (ofLe (u64Bytes n)) = n := by
  unfold u64Bytes
  rw [ofLe_toLe_of_lt (by have := n.toNat_lt; omega), UInt64.ofNat_toNat]

theorem length_u64Bytes (n : UInt64) : (u64Bytes n).length = 8 := length_toLe 8 _

theorem decodes_u64 (n : UInt64) : Decodes u64 (u64Bytes n) n := by
  have := (decodes_take (length_u64Bytes n)).map (g := UInt64.ofNat ∘ ofLe)
  rwa [Function.comp_apply, ofNat_ofLe_u64Bytes] at this

theorem arrayOf_toList {n : ℕ} (v : Vector UInt8 n) : arrayOf n v.toList = v := by
  refine Vector.ext fun i hi => ?_
  simp [arrayOf, List.getD_eq_getElem?_getD]

theorem decodes_array16 (v : Hash) : Decodes array16 v.toList v := by
  have := (decodes_take (show v.toList.length = 16 by simp)).map (g := arrayOf 16)
  rwa [arrayOf_toList] at this

theorem decodes_known {α : Type} {unknown : String} {o : Option α} {a : α} (h : o = some a) :
    Decodes (known unknown o) [] a := by
  subst h
  exact Decodes.pure a

/-- A setting of one byte. -/
theorem decodes_setting {α : Type} {unknown : String} {dec : UInt8 → Option α} {b : UInt8} {a : α}
    (h : dec b = some a) : Decodes (byte >>= known unknown ∘ dec) [b] a :=
  (decodes_byte b).bind (decodes_known h)

theorem decodes_pair (a b : UInt8) : Decodes pair [a, b] (a, b) :=
  (decodes_byte a).bind ((decodes_byte b).bind (Decodes.pure _))

/-- A setting of two bytes. -/
theorem decodes_setting₂ {α : Type} {unknown : String} {dec : UInt8 × UInt8 → Option α}
    {b c : UInt8} {a : α} (h : dec (b, c) = some a) :
    Decodes (pair >>= known unknown ∘ dec) [b, c] a :=
  (decodes_pair b c).bind (decodes_known h)

/-! ## Settings -/

theorem whitespaceFromBits_bits (w : Whitespace) : whitespaceFromBits (whitespaceBits w) = some w := by
  rcases w with ⟨_ | _, _ | _, _ | _⟩ <;> rfl

theorem recoveryFromBits_bits (r : Recovery) : recoveryFromBits (recoveryBits r) = some r := by
  rcases r with ⟨_ | _, _ | _, _ | _, _ | _⟩ <;> rfl

theorem decodes_recordEnding {unknown : String} (r : RecordEnding) :
    Decodes (pair >>= known unknown ∘ recordEndingOf) (encodeRecordEnding r) r := by
  cases r <;> exact decodes_setting₂ rfl

theorem decodes_escape {unknown : String} (r : Escape) :
    Decodes (pair >>= known unknown ∘ escapeOf) (encodeEscape r) r := by
  cases r <;> exact decodes_setting₂ rfl

theorem decodes_comment {unknown : String} (c : Option UInt8) :
    Decodes (pair >>= known unknown ∘ commentOf) (encodeComment c) c := by
  cases c <;> exact decodes_setting₂ rfl

theorem decodes_rules (rules : Syntax) : Decodes decodeSyntax (encodeSyntax rules) rules := by
  cases rules with
  | strict => exact (decodes_pair 0 0).bind (Decodes.pure _)
  | compatible r =>
    exact (decodes_pair 1 (recoveryBits r)).bind ((decodes_known (recoveryFromBits_bits r)).map)

theorem decodes_tail (t : StoredTail) : Decodes decodeTail (encodeTail t) t := by
  have hbytes := decodes_take (show t.bytes.toList.length = Tail.max by simp [Tail.max])
  have htail : Decodes (IndexFormat.take Tail.max >>= fun bytes =>
      (pure ⟨t.len, arrayOf 3 bytes⟩ : Read StoredTail)) t.bytes.toList t := by
    refine hbytes.bind_last ?_
    rw [arrayOf_toList]
    exact Decodes.pure t
  exact (decodes_byte t.len).bind htail

theorem decodes_validate {d : Dialect} (h : d.invalidity = none) : Decodes (validate d) [] () := by
  unfold validate
  rw [h]
  exact Decodes.pure ()

/-- A dialect stays usable without its tails, and without its comment. -/
theorem invalidity_plain {d : Dialect} (h : d.invalidity = none) {comment : Option UInt8}
    (hc : comment = none ∨ comment = d.comment) :
    { d with comment, delimiterTail := .empty, endingTail := .empty : Dialect }.invalidity = none := by
  obtain ⟨delimiter, quote, recordEnding, escape, given, t, u⟩ := d
  have hplain : ∀ c, (⟨delimiter, quote, recordEnding, escape, c, .empty, .empty⟩ :
      Dialect).multibyteInvalidity = none := fun _ => rfl
  unfold Dialect.invalidity at h ⊢
  simp only [hplain] at h hc ⊢
  rcases hc with rfl | rfl
  · grind
  · grind

theorem decodes_dialect {d : Dialect} (h : d.invalidity = none) :
    Decodes decodeDialect (encodeDialect d)
      { d with delimiterTail := .empty, endingTail := .empty } := by
  refine (decodes_byte d.delimiter).bind ((decodes_byte d.quote).bind
    ((decodes_recordEnding d.recordEnding).bind ((decodes_escape d.escape).bind ?_)))
  refine (decodes_comment d.comment).bind_last ?_
  refine (decodes_validate (invalidity_plain h (Or.inl rfl))).bind_nil ?_
  have hcomment := invalidity_plain h (Or.inr (Eq.refl d.comment))
  rcases hc : d.comment with _ | c
  · exact Decodes.pure _
  · rw [hc] at hcomment
    exact (decodes_validate hcomment).bind_nil (Decodes.pure _)

/-- The format is read back, with the tails it was stored with. -/
theorem decodes_format {f : StoredFormat} (h : f.settings.dialect.invalidity = none) :
    Decodes decodeFormat (encodeFormat f) f := by
  obtain ⟨⟨d, trim, blankRecords, readBom, writeBom, rules, nulls, quoting, skip⟩, t, u, ht, hu⟩ := f
  simp only at ht hu h
  have htails : { d with delimiterTail := t.toTail, endingTail := u.toTail : Dialect } = d := by
    rw [← ht, ← hu]
  refine (decodes_dialect h).bind
    ((decodes_setting (whitespaceFromBits_bits trim)).bind
    ((decodes_setting (a := blankRecords) (by cases blankRecords <;> rfl)).bind
    ((decodes_setting (a := readBom) (by cases readBom <;> rfl)).bind
    ((decodes_setting (a := writeBom) (by cases writeBom <;> rfl)).bind
    ((decodes_rules rules).bind
    ((decodes_setting (a := nulls) (by cases nulls <;> rfl)).bind
    ((decodes_setting (a := quoting) (by cases quoting <;> rfl)).bind
    ((decodes_setting (a := skip) (by cases skip <;> rfl)).bind
    ((decodes_tail t).bind ?_)))))))))
  refine (decodes_tail u).bind_last ?_
  refine (decodes_validate (by rw [htails]; exact h)).bind_nil ?_
  simp only [htails]
  exact Decodes.pure _

theorem length_encodeFormat (f : StoredFormat) : (encodeFormat f).length = formatBytes := by
  have hpair : ∀ a b : UInt8, [a, b].length = 2 := fun _ _ => rfl
  have hending : ∀ r, (encodeRecordEnding r).length = 2 := by rintro (_ | _ | _) <;> rfl
  have hescape : ∀ r, (encodeEscape r).length = 2 := by rintro (_ | _ | _ | _) <;> rfl
  have hcomment : ∀ c, (encodeComment c).length = 2 := by rintro (_ | _) <;> rfl
  have hrules : ∀ r, (encodeSyntax r).length = 2 := by rintro (_ | _) <;> rfl
  simp only [encodeFormat, encodeDialect, encodeTail, List.length_append, List.length_cons,
    List.length_nil, Vector.length_toList, hending, hescape, hcomment, hrules]
  rfl

/-! ## The header -/

/-- Limits that a `usize` of 64 bits holds. -/
def Fits (l : Limits) : Prop :=
  l.maxRecordBytes < 2 ^ 64 ∧ l.maxFieldBytes < 2 ^ 64 ∧ l.maxFields < 2 ^ 64

theorem decodes_limit {limit : ℕ} (h : limit < 2 ^ 64) :
    Decodes u64 (limitBytes limit) (UInt64.ofNat limit) := by
  have := decodes_u64 (UInt64.ofNat limit)
  unfold u64Bytes at this
  rwa [UInt64.toNat_ofNat', Nat.mod_eq_of_lt h] at this

theorem decodes_limits {l : Limits} (h : Fits l) : Decodes decodeLimits
    (limitBytes l.maxRecordBytes ++ (limitBytes l.maxFieldBytes ++ limitBytes l.maxFields)) l := by
  obtain ⟨h1, h2, h3⟩ := h
  refine (decodes_limit h1).bind ((decodes_limit h2).bind ?_)
  refine (decodes_limit h3).bind_last ?_
  simp only [UInt64.toNat_ofNat', Nat.mod_eq_of_lt h1, Nat.mod_eq_of_lt h2, Nat.mod_eq_of_lt h3]
  exact Decodes.pure l

variable {sourceLen : UInt64} {sourceHash : Hash} {f : StoredFormat} {l : Limits} {count : UInt64}

theorem decodes_header (hf : f.settings.dialect.invalidity = none) (hl : Fits l) :
    Decodes decodeHeader (encodeHeader sourceLen sourceHash f l count)
      ⟨version, sourceLen, sourceHash, f, l, count⟩ := by
  have hassoc : encodeHeader sourceLen sourceHash f l count =
      magic ++ (toLe 4 version ++ (u64Bytes sourceLen ++ (sourceHash.toList ++ (encodeFormat f ++
        ((limitBytes l.maxRecordBytes ++ (limitBytes l.maxFieldBytes ++ limitBytes l.maxFields)) ++
          u64Bytes count))))) := by
    simp only [encodeHeader, List.append_assoc]
  rw [hassoc]
  unfold decodeHeader
  refine (decodes_take (n := 8) rfl).bind ?_
  simp only [ne_eq, not_true_eq_false, if_false]
  refine (decodes_u32 (by decide)).bind ?_
  rw [if_neg (by decide)]
  refine (decodes_u64 sourceLen).bind ((decodes_array16 sourceHash).bind
    ((decodes_format hf).bind ((decodes_limits hl).bind ?_)))
  exact (decodes_u64 count).bind_last (Decodes.pure _)

theorem length_encodeHeader :
    (encodeHeader sourceLen sourceHash f l count).length = fixedHeaderBytes := by
  simp only [encodeHeader, u64Bytes, limitBytes, List.length_append, length_toLe,
    Vector.length_toList, length_encodeFormat]
  rfl

theorem validate_ends (d : Dialect) (rest : Bytes) :
    Ends (fun _ _ => True) (fun _ _ => d.invalidity = none) (validate d rest) := by
  unfold validate
  rcases h : d.invalidity with _ | reason
  · exact rfl
  · trivial

/-- A format that is decoded has a valid dialect. -/
theorem decodeFormat_ends (rest : Bytes) : Ends (fun _ _ => True)
    (fun f _ => f.settings.dialect.invalidity = none) (decodeFormat rest) := by
  unfold decodeFormat
  iterate 11 refine Ends.skip (fun _ _ => ?_) _
  exact (validate_ends _ _).bind fun _ _ h => h

theorem decodeLimits_ends (rest : Bytes) :
    Ends (fun _ _ => True) (fun l _ => Fits l) (decodeLimits rest) := by
  unfold decodeLimits
  refine Ends.skip (fun record _ => Ends.skip (fun field _ => Ends.skip (fun fields _ => ?_) _) _) _
  exact ⟨record.toNat_lt, field.toNat_lt, fields.toNat_lt⟩

/-- What a header that is decoded satisfies. -/
theorem decodeHeader_ends (rest : Bytes) : Ends (fun _ _ => True)
    (fun h _ => (minVersion ≤ h.version ∧ h.version ≤ version) ∧
      h.format.settings.dialect.invalidity = none ∧ Fits h.limits) (decodeHeader rest) := by
  unfold decodeHeader
  refine Ends.skip (fun found _ => ?_) _
  by_cases hmagic : found ≠ magic
  · simp only [if_pos hmagic]
    trivial
  simp only [if_neg hmagic]
  refine Ends.skip (fun number _ => ?_) _
  by_cases hversion : ¬ (minVersion ≤ number ∧ number ≤ version)
  · rw [if_pos hversion]
    trivial
  rw [if_neg hversion]
  refine Ends.skip (fun _ _ => Ends.skip (fun _ rest => ?_) _) _
  refine (decodeFormat_ends rest).bind fun f rest hf => ?_
  refine (decodeLimits_ends rest).bind fun l rest hl => ?_
  refine Ends.skip (fun count _ => ?_) _
  exact ⟨not_not.mp hversion, hf, hl⟩

/-! ## Positions -/

/-- What the loader asks of positions, behind the one before them. -/
def Admits (sourceLen : UInt64) : Option StoredEntry → List StoredEntry → Prop
  | _, [] => True
  | previous, entry :: entries =>
    (entry.1 < sourceLen ∧ 1 ≤ entry.2 ∧ ∀ p ∈ previous, p.1 < entry.1 ∧ p.2 ≤ entry.2) ∧
      Admits sourceLen (some entry) entries

theorem one_le_iff (n : UInt64) : 1 ≤ n ↔ n ≠ 0 := by
  rw [UInt64.le_iff_toNat_le, ne_eq, ← UInt64.toNat_inj]
  exact Nat.one_le_iff_ne_zero

theorem checkEntryBounds_ok {entry : StoredEntry} {rest rest' : Bytes} :
    checkEntryBounds entry sourceLen rest = .ok () rest' ↔
      rest' = rest ∧ entry.1 < sourceLen ∧ 1 ≤ entry.2 := by
  unfold checkEntryBounds
  rw [one_le_iff]
  by_cases hoffset : entry.1 ≥ sourceLen
  · rw [if_pos hoffset]
    exact ⟨nofun, fun h => absurd h.2.1 (UInt64.not_lt.mpr hoffset)⟩
  rw [if_neg hoffset]
  by_cases hline : entry.2 = 0
  · rw [if_pos hline]
    exact ⟨nofun, fun h => absurd hline h.2.2⟩
  · rw [if_neg hline, pure_apply, EStateM.Result.ok.injEq]
    exact ⟨fun h => ⟨h.2.symm, UInt64.not_le.mp hoffset, hline⟩, fun h => ⟨rfl, h.1.symm⟩⟩

theorem checkEntry_ok {entry : StoredEntry} {previous : Option StoredEntry} {rest rest' : Bytes} :
    checkEntry entry sourceLen previous rest = .ok () rest' ↔ rest' = rest ∧
      entry.1 < sourceLen ∧ 1 ≤ entry.2 ∧ ∀ p ∈ previous, p.1 < entry.1 ∧ p.2 ≤ entry.2 := by
  have hbehind : (∀ p ∈ previous, p.1 < entry.1 ∧ p.2 ≤ entry.2) ↔
      ¬ (previous.any fun p => entry.1 ≤ p.1) ∧ ¬ (previous.any fun p => entry.2 < p.2) := by
    rcases previous with _ | p
    · simp
    · simp [UInt64.not_le, UInt64.not_lt]
  unfold checkEntry
  rw [hbehind]
  constructor
  · intro h
    obtain ⟨_, s, hbounds, hbehind⟩ := ok_of_bind h
    obtain ⟨rfl, hoffset, hline⟩ := checkEntryBounds_ok.mp hbounds
    by_cases h1 : (previous.any fun p => entry.1 ≤ p.1) = true
    · rw [if_pos h1] at hbehind
      cases hbehind
    rw [if_neg h1] at hbehind
    by_cases h2 : (previous.any fun p => entry.2 < p.2) = true
    · rw [if_pos h2] at hbehind
      cases hbehind
    rw [if_neg h2] at hbehind
    exact ⟨(EStateM.Result.ok.inj hbehind).2.symm, hoffset, hline, h1, h2⟩
  · rintro ⟨rfl, hoffset, hline, h1, h2⟩
    rw [bind_ok (checkEntryBounds_ok.mpr ⟨rfl, hoffset, hline⟩), if_neg h1, if_neg h2]
    rfl

end IndexFormat

namespace CsvIndex

open IndexFormat

variable {sourceLen : UInt64}

theorem entryBytes_cons (entry : StoredEntry) (entries : List StoredEntry) :
    entryBytes (entry :: entries) = u64Bytes entry.1 ++ (u64Bytes entry.2 ++ entryBytes entries) := by
  rw [entryBytes, List.flatMap_cons, List.append_assoc, ← entryBytes]

theorem length_entryBytes (entries : List StoredEntry) :
    (entryBytes entries).length = 16 * entries.length := by
  induction entries with
  | nil => rfl
  | cons entry entries ih =>
    rw [entryBytes_cons, List.length_append, List.length_append, ih, length_u64Bytes,
      length_u64Bytes, List.length_cons]
    omega

/-- Positions that the loader admits are read back. -/
theorem decodes_entries : ∀ {entries : List StoredEntry} {previous : Option StoredEntry},
    Admits sourceLen previous entries →
    Decodes (readEntries sourceLen entries.length previous) (entryBytes entries)
      (entries, entryBytes entries)
  | [], _, _ => Decodes.pure _
  | entry :: entries, previous, ⟨hentry, hrest⟩ => by
    rw [entryBytes_cons, List.length_cons, readEntries]
    refine (decodes_take (length_u64Bytes _)).bind ((decodes_take (length_u64Bytes _)).bind ?_)
    simp only [ofNat_ofLe_u64Bytes]
    have hcheck : Decodes (checkEntry entry sourceLen previous) [] () := fun rest =>
      checkEntry_ok.mpr ⟨rfl, hentry⟩
    refine hcheck.bind_nil ?_
    refine (decodes_entries hrest).bind_last ?_
    simp only [List.append_assoc]
    exact Decodes.pure _

/-- What is read are positions that the loader admits. -/
theorem readEntries_ok : ∀ {count : ℕ} {previous : Option StoredEntry} {text rest bytes : Bytes}
    {entries : List StoredEntry},
    readEntries sourceLen count previous text = .ok (entries, bytes) rest →
    text = bytes ++ rest ∧ bytes = entryBytes entries ∧ entries.length = count ∧
      Admits sourceLen previous entries
  | 0, _, _, _, _, _, h => by
    obtain ⟨hread, rfl⟩ := EStateM.Result.ok.inj h
    obtain ⟨rfl, rfl⟩ := Prod.mk.inj hread
    exact ⟨rfl, rfl, rfl, trivial⟩
  | count + 1, previous, text, rest, bytes, entries, h => by
    obtain ⟨offset, text1, hoffset, h1⟩ := ok_of_bind h
    obtain ⟨line, text2, hline, h2⟩ := ok_of_bind h1
    obtain ⟨_, text3, hcheck, h3⟩ := ok_of_bind h2
    obtain ⟨⟨entries', bytes'⟩, text4, hread, h4⟩ := ok_of_bind h3
    obtain ⟨rfl, hoffsetLength⟩ := take_ok hoffset
    obtain ⟨rfl, hlineLength⟩ := take_ok hline
    obtain ⟨rfl, hentry⟩ := checkEntry_ok.mp hcheck
    obtain ⟨rfl, rfl, rfl, hadmits⟩ := readEntries_ok hread
    obtain ⟨hpair, rfl⟩ := EStateM.Result.ok.inj h4
    obtain ⟨rfl, rfl⟩ := Prod.mk.inj hpair
    have hbytes : ∀ word : Bytes, word.length = 8 →
        u64Bytes (UInt64.ofNat (ofLe word)) = word := by
      intro word hword
      have hlt := ofLe_lt word
      rw [hword] at hlt
      rw [u64Bytes, UInt64.toNat_ofNat', Nat.mod_eq_of_lt (by omega), ← hword, toLe_ofLe]
    refine ⟨by simp only [List.append_assoc], ?_, rfl, hentry, hadmits⟩
    rw [entryBytes_cons, hbytes offset hoffsetLength, hbytes line hlineLength, List.append_assoc]

/-- What the loader asks, of all positions at once. -/
theorem admits_iff : ∀ {entries : List StoredEntry} {previous : Option StoredEntry},
    Admits sourceLen previous entries ↔
      ((∀ entry ∈ entries, entry.1 < sourceLen ∧ 1 ≤ entry.2) ∧
        entries.Pairwise fun a b => a.1 < b.1 ∧ a.2 ≤ b.2) ∧
      ∀ p ∈ previous, ∀ entry ∈ entries, p.1 < entry.1 ∧ p.2 ≤ entry.2
  | [], previous => by simp [Admits]
  | entry :: entries, previous => by
    rw [Admits, admits_iff, List.pairwise_cons, List.forall_mem_cons]
    constructor
    · rintro ⟨⟨hoffset, hline, hbehind⟩, ⟨hall, hpairs⟩, hnext⟩
      have hnext := hnext entry rfl
      refine ⟨⟨⟨⟨hoffset, hline⟩, hall⟩, hnext, hpairs⟩, fun p hp => ?_⟩
      refine List.forall_mem_cons.mpr ⟨hbehind p hp, fun other hother => ?_⟩
      obtain ⟨hlt, hle⟩ := hnext other hother
      exact ⟨UInt64.lt_trans (hbehind p hp).1 hlt, UInt64.le_trans (hbehind p hp).2 hle⟩
    · rintro ⟨⟨⟨⟨hoffset, hline⟩, hall⟩, hnext, hpairs⟩, hbehind⟩
      refine ⟨⟨hoffset, hline, fun p hp => hbehind p hp entry (List.mem_cons_self ..)⟩,
        ⟨hall, hpairs⟩, ?_⟩
      intro p hp
      obtain rfl := Option.some.inj hp
      exact hnext

/-! ## Whole indexes -/

/-- What the loader asks of an index. -/
structure WellFormed (ix : CsvIndex) : Prop where
  valid : ix.format.settings.dialect.invalidity = none
  fits : Fits ix.limits
  paired : ix.offsets.length = ix.lines.length
  increasing : ix.offsets.Pairwise (· < ·)
  within : ∀ offset ∈ ix.offsets, offset < ix.sourceLen
  nondecreasing : ix.lines.Pairwise (· ≤ ·)
  numbered : ∀ line ∈ ix.lines, 1 ≤ line

theorem admits_zip {offsets lines : List UInt64} (hpaired : offsets.length = lines.length) :
    Admits sourceLen none (offsets.zip lines) ↔ offsets.Pairwise (· < ·) ∧
      (∀ offset ∈ offsets, offset < sourceLen) ∧ lines.Pairwise (· ≤ ·) ∧ ∀ line ∈ lines, 1 ≤ line := by
  have hfst : (offsets.zip lines).map Prod.fst = offsets := List.map_fst_zip hpaired.le
  have hsnd : (offsets.zip lines).map Prod.snd = lines := List.map_snd_zip hpaired.ge
  have hoffsets : (∀ offset ∈ offsets, offset < sourceLen) ↔
      ∀ entry ∈ offsets.zip lines, entry.1 < sourceLen := by
    conv_lhs => rw [← hfst]
    rw [List.forall_mem_map]
  have hlines : (∀ line ∈ lines, 1 ≤ line) ↔ ∀ entry ∈ offsets.zip lines, 1 ≤ entry.2 := by
    conv_lhs => rw [← hsnd]
    rw [List.forall_mem_map]
  have hincreasing : offsets.Pairwise (· < ·) ↔
      (offsets.zip lines).Pairwise fun a b => a.1 < b.1 := by
    conv_lhs => rw [← hfst]
    rw [List.pairwise_map]
  have hnondecreasing : lines.Pairwise (· ≤ ·) ↔
      (offsets.zip lines).Pairwise fun a b => a.2 ≤ b.2 := by
    conv_lhs => rw [← hsnd]
    rw [List.pairwise_map]
  rw [admits_iff, hoffsets, hlines, hincreasing, hnondecreasing, List.pairwise_and_iff]
  simp only [Option.mem_def, reduceCtorEq, false_implies, implies_true, and_true]
  constructor
  · rintro ⟨hall, h1, h2⟩
    exact ⟨h1, fun entry h => (hall entry h).1, h2, fun entry h => (hall entry h).2⟩
  · rintro ⟨h1, hw, h2, hn⟩
    exact ⟨fun entry h => ⟨hw entry h, hn entry h⟩, h1, h2⟩

theorem decodes_checksum {mismatch : String} (expected : Hash) :
    Decodes (verifyChecksum mismatch expected) expected.toList () := by
  refine (decodes_array16 expected).bind_last ?_
  simp only [ne_eq, not_true_eq_false, if_false]
  exact Decodes.pure ()

theorem decodes_expectedLen {header : IndexHeader}
    (h : header.count.toNat * 16 + fixedHeaderBytes + trailerBytes header.version < 2 ^ 64) :
    Decodes (expectedLen header) []
      (header.count.toNat * 16 + fixedHeaderBytes + trailerBytes header.version) := by
  intro rest
  unfold expectedLen payloadLen
  rw [if_pos (by omega), pure_bind, if_pos h]
  rfl

variable (hash : HashFunction) {ix : CsvIndex}

theorem length_save (hpaired : ix.offsets.length = ix.lines.length) :
    (ix.save hash).length = ix.offsets.length * 16 + fixedHeaderBytes + 2 * hashBytes := by
  simp only [save, header, List.length_append, length_encodeHeader, length_entryBytes,
    List.length_zip, ← hpaired, Nat.min_self, Vector.length_toList]
  unfold hashBytes
  omega

/-- A well-formed index is loaded as it was saved. -/
theorem load_save (h : ix.WellFormed) (hshort : (ix.save hash).length < 2 ^ 64) :
    load hash (ix.save hash) = .ok ix := by
  have hlen := length_save hash h.paired
  have hcount : (UInt64.ofNat ix.offsets.length).toNat = ix.offsets.length := by
    rw [UInt64.toNat_ofNat']
    exact Nat.mod_eq_of_lt (by omega)
  have hzip : (ix.offsets.zip ix.lines).length = ix.offsets.length := by
    rw [List.length_zip, h.paired, Nat.min_self]
  have hheader : decodeHeader ix.header = .ok ⟨version, ix.sourceLen, ix.sourceHash, ix.format,
      ix.limits, UInt64.ofNat ix.offsets.length⟩ [] := by
    rw [← List.append_nil ix.header]
    exact decodes_header h.valid h.fits []
  have hreads : Decodes (decodeReader hash (ix.save hash).length) (ix.save hash) ix := by
    unfold decodeReader
    refine (decodes_take length_encodeHeader).bind ?_
    rw [← header]
    simp only [hheader, pure_bind]
    refine (decodes_expectedLen ?_).bind_nil ?_
    · simp only [hcount]
      exact hlen ▸ hshort
    have hexpected : (UInt64.ofNat ix.offsets.length).toNat * 16 + fixedHeaderBytes +
        trailerBytes version = (ix.save hash).length := by
      rw [hcount, hlen]
      rfl
    rw [if_neg (not_not.mpr hexpected), hcount]
    have hentries := decodes_entries ((admits_zip h.paired).mpr
      ⟨h.increasing, h.within, h.nondecreasing, h.numbered⟩)
    rw [hzip] at hentries
    refine hentries.bind ?_
    rw [if_neg (by decide), List.map_fst_zip h.paired.le, List.map_snd_zip h.paired.ge]
    refine (decodes_checksum _).bind ?_
    exact (decodes_checksum _).bind_last (Decodes.pure _)
  have := hreads []
  rw [List.append_nil] at this
  unfold load
  rw [this]

/-- What the loader has read of a file: its header, and the positions behind it. -/
structure Loaded (file : Bytes) (ix : CsvIndex) (headerBytes : Bytes) (header : IndexHeader)
    (trailer : Bytes) : Prop where
  file_eq : file = headerBytes ++ (entryBytes (ix.offsets.zip ix.lines) ++ trailer)
  length : headerBytes.length = fixedHeaderBytes
  decoded : ∃ rest, decodeHeader headerBytes = .ok header rest
  expected : ∀ rest, expectedLen header rest = .ok file.length rest
  count : header.count.toNat = ix.offsets.length
  index : ix = ⟨header.sourceLen, header.sourceHash, header.format, header.limits, ix.offsets,
    ix.lines⟩

theorem expectedLen_ok {header : IndexHeader} {n : ℕ} {rest rest' : Bytes}
    (h : expectedLen header rest = .ok n rest') :
    rest' = rest ∧ ∀ s, expectedLen header s = .ok n s := by
  unfold expectedLen payloadLen at *
  by_cases hpayload : header.count.toNat * 16 + fixedHeaderBytes < 2 ^ 64
  swap
  · rw [if_neg hpayload] at h
    cases h
  simp only [if_pos hpayload, pure_bind] at h ⊢
  by_cases htrailer :
      header.count.toNat * 16 + fixedHeaderBytes + trailerBytes header.version < 2 ^ 64
  · rw [if_pos htrailer] at h ⊢
    obtain ⟨rfl, rfl⟩ := EStateM.Result.ok.inj h
    exact ⟨rfl, fun _ => rfl⟩
  · rw [if_neg htrailer] at h
    cases h

theorem zip_map_fst_snd {α β : Type} (l : List (α × β)) : (l.map (·.1)).zip (l.map (·.2)) = l := by
  rw [List.zip_map', List.map_id']

/-- What is loaded is well formed. -/
theorem load_ok {file : Bytes} (h : load hash file = .ok ix) :
    ix.WellFormed ∧ ∃ headerBytes header trailer, Loaded file ix headerBytes header trailer := by
  unfold load at h
  rcases hread : decodeReader hash file.length file with ⟨loaded, rest⟩ | ⟨e, rest⟩
  swap
  · rw [hread] at h
    cases h
  rw [hread] at h
  obtain rfl := Except.ok.inj h
  unfold decodeReader at hread
  obtain ⟨headerBytes, s1, htake, h1⟩ := ok_of_bind hread
  obtain ⟨hfile, hlength⟩ := take_ok htake
  rcases hheader : decodeHeader headerBytes with ⟨header, s2⟩ | ⟨e, s2⟩
  swap
  · simp only [hheader] at h1
    cases h1
  simp only [hheader, pure_bind] at h1
  obtain ⟨expected, s3, hexpected, h2⟩ := ok_of_bind h1
  obtain ⟨rfl, hlen⟩ := expectedLen_ok hexpected
  by_cases hfileLen : expected ≠ file.length
  · rw [if_pos hfileLen] at h2
    cases h2
  rw [if_neg hfileLen] at h2
  rw [not_not] at hfileLen
  obtain ⟨⟨entries, bytes⟩, s4, hentries, h3⟩ := ok_of_bind h2
  obtain ⟨hbytes, rfl, hcount, hadmits⟩ := readEntries_ok hentries
  have hloaded : loaded = ⟨header.sourceLen, header.sourceHash, header.format, header.limits,
      entries.map (·.1), entries.map (·.2)⟩ := by
    by_cases hversion : header.version < 9
    · rw [if_pos hversion] at h3
      obtain ⟨_, s5, _, h4⟩ := ok_of_bind h3
      exact (EStateM.Result.ok.inj h4).1.symm
    · rw [if_neg hversion] at h3
      obtain ⟨_, s5, _, h4⟩ := ok_of_bind h3
      obtain ⟨_, s6, _, h5⟩ := ok_of_bind h4
      exact (EStateM.Result.ok.inj h5).1.symm
  have hends := decodeHeader_ends headerBytes
  rw [hheader] at hends
  obtain ⟨_, hvalid, hfits⟩ := hends
  have hpaired : (entries.map (·.1)).length = (entries.map (·.2)).length := by
    rw [List.length_map, List.length_map]
  rw [← zip_map_fst_snd entries, admits_zip hpaired] at hadmits
  obtain ⟨hincreasing, hwithin, hnondecreasing, hnumbered⟩ := hadmits
  rw [hloaded]
  refine ⟨⟨hvalid, hfits, hpaired, hincreasing, hwithin, hnondecreasing, hnumbered⟩,
    headerBytes, header, s4, ?_⟩
  exact {
    file_eq := by rw [zip_map_fst_snd, ← hbytes, hfile]
    length := hlength
    decoded := ⟨s2, hheader⟩
    expected := fun s => hfileLen ▸ hlen s
    count := by rw [List.length_map, hcount]
    index := rfl }

/-! ## The lazy reader -/

theorem drop_entryBytes : ∀ (n : ℕ) (entries : List StoredEntry),
    (entryBytes entries).drop (n * 16) = entryBytes (entries.drop n)
  | 0, entries => by rw [Nat.zero_mul, List.drop_zero, List.drop_zero]
  | n + 1, [] => by simp [entryBytes]
  | n + 1, entry :: entries => by
    have hlen : (u64Bytes entry.1 ++ u64Bytes entry.2).length = 16 := by
      rw [List.length_append, length_u64Bytes, length_u64Bytes]
    rw [entryBytes_cons, ← List.append_assoc, Nat.succ_mul, Nat.add_comm, ← List.drop_drop,
      List.drop_left' hlen, drop_entryBytes n entries, List.drop_succ_cons]

section lazy

variable {file headerBytes trailer : Bytes} {header : IndexHeader}
  (h : Loaded file ix headerBytes header trailer)

include h

/-- The reader of a file that loads. -/
theorem Loaded.new_eq : CsvIndexReader.new file = .ok ⟨file, header.version, ix.sourceLen,
    ix.sourceHash, ix.format, ix.limits, header.count⟩ := by
  obtain ⟨rest, hdecoded⟩ := h.decoded
  have htake : IndexFormat.take fixedHeaderBytes file =
      .ok headerBytes (entryBytes (ix.offsets.zip ix.lines) ++ trailer) := by
    rw [h.file_eq]
    exact decodes_take h.length _
  unfold CsvIndexReader.new
  rw [bind_ok htake]
  simp only [hdecoded, pure_bind]
  rw [bind_ok (h.expected _), if_neg (not_not.mpr rfl), h.index]
  rfl

/-- A position that is read on its own is the one that was loaded. -/
theorem Loaded.entry_eq (hwell : ix.WellFormed) {r : CsvIndexReader}
    (hr : CsvIndexReader.new file = .ok r) (record : ℕ) : r.entry record = .ok (ix.entry record) := by
  obtain rfl := Except.ok.inj (h.new_eq.symm.trans hr)
  unfold CsvIndexReader.entry CsvIndexReader.len
  rw [h.count]
  by_cases hrecord : record ≥ ix.offsets.length
  · have hnone : ix.entry record = none := by
      unfold CsvIndex.entry
      rw [List.getElem?_eq_none hrecord]
    rw [if_pos hrecord, hnone]
  have hzip : record < (ix.offsets.zip ix.lines).length := by
    rw [List.length_zip, ← hwell.paired]
    omega
  obtain ⟨entry, hentry⟩ : ∃ entry, (ix.offsets.zip ix.lines)[record]? = some entry :=
    ⟨_, List.getElem?_eq_getElem hzip⟩
  obtain ⟨hoffset, hline⟩ := List.getElem?_zip_eq_some.mp hentry
  have hsome : ix.entry record = some entry := by
    unfold CsvIndex.entry
    rw [hoffset, hline]
  have htext : file.drop (fixedHeaderBytes + record * 16) = u64Bytes entry.1 ++ u64Bytes entry.2 ++
      (entryBytes ((ix.offsets.zip ix.lines).drop (record + 1)) ++ trailer) := by
    have hentries : entryBytes ((ix.offsets.zip ix.lines).drop record) =
        u64Bytes entry.1 ++ (u64Bytes entry.2 ++
          entryBytes ((ix.offsets.zip ix.lines).drop (record + 1))) := by
      rw [List.drop_eq_getElem_cons hzip, entryBytes_cons,
        (List.getElem?_eq_some_iff.mp hentry).2]
    have hfit : record * 16 ≤ (entryBytes (ix.offsets.zip ix.lines)).length := by
      rw [length_entryBytes]
      omega
    rw [h.file_eq, ← List.drop_drop, List.drop_left' h.length, List.drop_append_of_le_length hfit,
      drop_entryBytes, hentries]
    simp only [List.append_assoc]
  have hin : entry.1 < ix.sourceLen ∧ 1 ≤ entry.2 :=
    ⟨hwell.within _ (List.mem_of_getElem? hoffset), hwell.numbered _ (List.mem_of_getElem? hline)⟩
  have hread : Decodes (IndexFormat.take 16) (u64Bytes entry.1 ++ u64Bytes entry.2)
      (u64Bytes entry.1 ++ u64Bytes entry.2) :=
    decodes_take (by rw [List.length_append, length_u64Bytes, length_u64Bytes])
  rw [if_neg hrecord, htext, bind_ok (hread _)]
  simp only [List.take_left' (length_u64Bytes _), List.drop_left' (length_u64Bytes _),
    ofNat_ofLe_u64Bytes]
  rw [bind_ok (checkEntryBounds_ok.mpr ⟨rfl, hin⟩), hsome]
  rfl

theorem Loaded.location_eq (hwell : ix.WellFormed) {r : CsvIndexReader}
    (hr : CsvIndexReader.new file = .ok r) (record : ℕ) :
    r.location record = ix.locationAt record := by
  have hsource : r.sourceLen = ix.sourceLen := by
    obtain rfl := Except.ok.inj (h.new_eq.symm.trans hr)
    rfl
  unfold CsvIndexReader.location locationAt
  rw [h.entry_eq hwell hr record]
  rcases ix.entry record with _ | entry
  · rfl
  · simp only [hsource]

end lazy

end CsvIndex

end Coseva
