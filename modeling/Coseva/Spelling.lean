/-
  Coseva — the text of a record spells its fields: what the emitter writes is in
  the grammar that the parser reads.

  * `decode_escapedText`: an escaped field decodes to itself;
  * `FieldStands`: what a field must not contain for its spelling to survive;
  * `fieldText_spells`: then the text of a field spells it.
-/
import Coseva.ReadDocument

namespace Coseva

open Engine

/-! ## Escaped text -/

/-- What stands behind an escape. -/
def unescapeByte (mysql : Bool) (b : UInt8) : UInt8 := if mysql then mysqlUnescapeByte b else b

/-- The loop that decodes escapes, byte by byte. -/
def decode (mysql : Bool) (escape : UInt8) : Bytes → Bytes
  | [] => []
  | [b] => [b]
  | b :: c :: raw =>
    if b = escape then unescapeByte mysql c :: decode mysql escape raw
    else b :: decode mysql escape (c :: raw)

theorem decode_plain {mysql : Bool} {escape b : UInt8} (h : b ≠ escape) (raw : Bytes) :
    decode mysql escape (b :: raw) = b :: decode mysql escape raw := by
  cases raw with
  | nil => rfl
  | cons c raw => rw [decode, if_neg h]

theorem decode_escape {mysql : Bool} {escape : UInt8} (b : UInt8) (raw : Bytes) :
    decode mysql escape (escape :: b :: raw) =
      unescapeByte mysql b :: decode mysql escape raw := by
  rw [decode, if_pos rfl]

theorem decode_append {mysql : Bool} {escape : UInt8} {u : Bytes} (h : ∀ b ∈ u, b ≠ escape)
    (v : Bytes) : decode mysql escape (u ++ v) = u ++ decode mysql escape v := by
  induction u with
  | nil => rfl
  | cons b u ih =>
    rw [List.cons_append, decode_plain (h b List.mem_cons_self),
      ih fun c hc => h c (List.mem_cons_of_mem b hc)]
    rfl

theorem unescapeLoop_eq (mysql : Bool) (escape : UInt8) :
    ∀ (fuel : ℕ) (raw : Bytes), raw.length < fuel →
      unescapeLoop mysql escape fuel raw = decode mysql escape raw
  | 0, _, h => by omega
  | fuel + 1, raw, h => by
    unfold unescapeLoop
    rcases hf : find1 escape raw with _ | i
    · have hno : ∀ b ∈ raw, b ≠ escape := fun b hb => by
        simpa using List.findIdx?_eq_none_iff.mp hf b hb
      have : decode mysql escape (raw ++ []) = raw ++ decode mysql escape [] := decode_append hno []
      rw [List.append_nil] at this
      simp only [this, decode, List.append_nil]
    · obtain ⟨u, x, v, rfl, rfl, hx, hu⟩ := Window.of_findIdx?_some hf
      obtain rfl : x = escape := by simpa using hx
      have hno : ∀ b ∈ u, b ≠ x := fun b hb => by simpa using hu b hb
      have hnext : (u ++ x :: v)[u.length + 1]? = v.head? := by
        rw [List.getElem?_append_right (by omega), Nat.add_sub_cancel_left]
        cases v <;> rfl
      have hdrop : (u ++ x :: v).drop (u.length + 2) = v.drop 1 := by
        rw [List.drop_append]; simp
      simp only [hnext, hdrop, List.take_left]
      rw [decode_append hno]
      cases v with
      | nil => rfl
      | cons c v =>
        rw [decode_escape]
        simp only [List.head?_cons, List.drop_succ_cons, List.drop_zero]
        rw [unescapeLoop_eq mysql x fuel v (by simp at h; omega)]
        rfl

/-- A byte that stands for another one behind a backslash. -/
def mysqlLetter (b : UInt8) : Bool := mysqlUnescapeByte b != b

section escaped

variable {o : FormatSettings} {escape : UInt8}

/-- One byte of an escaped field. -/
def escapeOne (d : Dialect) (escape b : UInt8) : Bytes :=
  match escapedByte d escape b with
  | some escaped => [escape, escaped]
  | none => [b]

theorem escapeAll_cons (d : Dialect) (escape b : UInt8) (field : Bytes) :
    escapeAll d escape (b :: field) = escapeOne d escape b ++ escapeAll d escape field := rfl

theorem escapeAll_concat (d : Dialect) (escape b : UInt8) (field : Bytes) :
    escapeAll d escape (field ++ [b]) = escapeAll d escape field ++ escapeOne d escape b := by
  simp only [escapeAll, List.flatMap_append, List.flatMap_singleton]
  rfl

/-- A byte is escaped with a letter of its own, is escaped as it is, or stands
    for itself. -/
theorem escapeOne_cases (d : Dialect) (escape b : UInt8) :
    (∃ letter, escapeOne d escape b = [escape, letter] ∧ d.escape = .mysql ∧
        mysqlUnescapeByte letter = b ∧ mysqlLetter letter = true) ∨
      (escapeOne d escape b = [escape, b] ∧
        (b = escape ∨ b = d.delimiter ∨ b = d.recordEnding.byte ∨ b = d.quote) ∧
        (d.escape = .mysql → b ≠ 13)) ∨
      (escapeOne d escape b = [b] ∧ b ≠ escape ∧ b ≠ d.delimiter ∧ b ≠ d.recordEnding.byte ∧
        b ≠ d.quote ∧ (d.escape = .mysql → b ≠ 13)) := by
  unfold escapeOne escapedByte
  by_cases hm : d.escape = .mysql
  · simp only [hm, beq_self_eq_true, Bool.true_and, beq_iff_eq]
    by_cases h0 : b = 0
    · exact Or.inl ⟨48, by simp [h0], trivial, h0.symm, by decide⟩
    by_cases h8 : b = 8
    · exact Or.inl ⟨98, by simp [h8], trivial, h8.symm, by decide⟩
    by_cases h10 : b = 10
    · exact Or.inl ⟨110, by simp [h10], trivial, h10.symm, by decide⟩
    by_cases h13 : b = 13
    · exact Or.inl ⟨114, by simp [h13], trivial, h13.symm, by decide⟩
    by_cases h9 : b = 9
    · exact Or.inl ⟨116, by simp [h9], trivial, h9.symm, by decide⟩
    by_cases h26 : b = 26
    · exact Or.inl ⟨90, by simp [h26], trivial, h26.symm, by decide⟩
    simp only [h0, h8, h10, h13, h9, h26, if_false]
    by_cases hx : b = escape
    · exact Or.inr (Or.inl ⟨by simp [hx], Or.inl hx, fun _ => h13⟩)
    by_cases hs : b = d.delimiter ∨ b = d.recordEnding.byte ∨ b = d.quote
    · refine Or.inr (Or.inl ⟨?_, Or.inr hs, fun _ => h13⟩)
      rw [if_neg hx, if_pos (by simpa [or_assoc] using hs)]
    · simp only [not_or] at hs
      refine Or.inr (Or.inr ⟨?_, hx, hs.1, hs.2.1, hs.2.2, fun _ => h13⟩)
      rw [if_neg hx, if_neg (by simp [hs])]
  · have hm' : (d.escape == .mysql) = false := by simpa using hm
    simp only [hm', Bool.false_and, Bool.false_eq_true, if_false, beq_iff_eq]
    by_cases hx : b = escape
    · exact Or.inr (Or.inl ⟨by simp [hx], Or.inl hx, fun h => absurd h hm⟩)
    by_cases hs : b = d.delimiter ∨ b = d.recordEnding.byte ∨ b = d.quote
    · refine Or.inr (Or.inl ⟨?_, Or.inr hs, fun h => absurd h hm⟩)
      rw [if_neg hx, if_pos (by simpa [or_assoc] using hs)]
    · simp only [not_or] at hs
      refine Or.inr (Or.inr ⟨?_, hx, hs.1, hs.2.1, hs.2.2, fun h => absurd h hm⟩)
      rw [if_neg hx, if_neg (by simp [hs])]

theorem leads_cons {d : Dialect} {field : Bytes} (h : d.leads field = true) :
    ∃ b tail, field = b :: tail ∧ (b = 0xEF ∨ d.comment = some b) := by
  cases field with
  | nil => simp [Dialect.leads, bom] at h
  | cons b tail =>
    refine ⟨b, tail, rfl, ?_⟩
    simp only [Dialect.leads, bom, List.isPrefixOf_cons_cons, Bool.or_eq_true, Bool.and_eq_true,
      beq_iff_eq, Option.any_eq_true, List.head?_cons, Option.some.injEq] at h
    rcases h with ⟨h, -⟩ | ⟨c, hc, rfl⟩
    · exact Or.inl h.symm
    · exact Or.inr hc

/-! ### What it decodes to -/

/-- Under Mysql escaping no letter is structural where it occurs. -/
structure LettersApart (o : FormatSettings) (isFirst : Bool) (field : Bytes) : Prop where
  structural : o.dialect.escape = .mysql → ∀ b ∈ field, mysqlLetter b = true →
    b ≠ o.dialect.delimiter ∧ b ≠ o.dialect.recordEnding.byte ∧ b ≠ o.dialect.quote
  lead : o.dialect.escape = .mysql → isFirst = true → ∀ comment, o.dialect.comment = some comment →
    mysqlLetter comment = true → field.head? ≠ some comment

theorem unescapeByte_self {b : UInt8}
    (h : o.dialect.escape = .mysql → mysqlLetter b = false) :
    unescapeByte (o.dialect.escape == .mysql) b = b := by
  by_cases hm : o.dialect.escape = .mysql
  · have : mysqlUnescapeByte b = b := by simpa [mysqlLetter] using h hm
    simp [unescapeByte, hm, this]
  · have hm' : (o.dialect.escape == .mysql) = false := by simpa using hm
    simp [unescapeByte, hm']

theorem decode_escapeAll (hesc : o.dialect.escape.unquotedByte = some escape) {field : Bytes}
    (h : o.dialect.escape = .mysql → ∀ b ∈ field, mysqlLetter b = true →
      b ≠ o.dialect.delimiter ∧ b ≠ o.dialect.recordEnding.byte ∧ b ≠ o.dialect.quote) :
    decode (o.dialect.escape == .mysql) escape (escapeAll o.dialect escape field) = field := by
  induction field with
  | nil => rfl
  | cons b field ih =>
    have ih := ih fun hm c hc => h hm c (List.mem_cons_of_mem b hc)
    rw [escapeAll_cons]
    rcases escapeOne_cases o.dialect escape b with
      ⟨letter, hb, hm, hl, -⟩ | ⟨hb, hs, -⟩ | ⟨hb, hne, -⟩ <;>
      rw [hb] <;> simp only [List.cons_append, List.nil_append]
    · rw [decode_escape, ih, hm]
      simp [unescapeByte, hl]
    · rw [decode_escape, ih, unescapeByte_self]
      intro hm
      rcases hs with rfl | hs
      · rw [hm] at hesc
        obtain rfl : (92 : UInt8) = b := Option.some.inj hesc
        decide
      · by_contra hc
        have := h hm b List.mem_cons_self (by simpa using hc)
        tauto
    · rw [decode_plain hne, ih]

/-- **An escaped field decodes to itself.** -/
theorem decode_escapedText (hesc : o.dialect.escape.unquotedByte = some escape) {isFirst : Bool}
    {field : Bytes} (h : LettersApart o isFirst field) :
    decode (o.dialect.escape == .mysql) escape (escapedText o.dialect escape field isFirst) =
      field := by
  unfold escapedText
  split
  · rename_i hlead
    simp only [Bool.and_eq_true] at hlead
    obtain ⟨b, tail, rfl, hb⟩ := leads_cons hlead.2
    have hletter : o.dialect.escape = .mysql → mysqlLetter b = false := by
      intro hm
      rcases hb with rfl | hb
      · decide
      · by_contra hc
        exact h.lead hm hlead.1 b hb (by simpa using hc) rfl
    simp only [List.take_succ_cons, List.take_zero, List.drop_succ_cons, List.drop_zero,
      List.cons_append, List.nil_append]
    rw [decode_escape, unescapeByte_self hletter, decode_escapeAll hesc fun hm c hc =>
      h.structural hm c (List.mem_cons_of_mem b hc)]
  · exact decode_escapeAll hesc h.structural

/-! ### Where it ends -/

/-- Unescaped carriage returns: none in a field where the record ending is
    CRLF, none at the end of the last one where it is a line feed. -/
structure ReturnsApart (o : FormatSettings) (isFirst last : Bool) (field : Bytes) : Prop where
  within : o.dialect.recordEnding = .crLf → ∀ escape, o.dialect.escape = .unquoted escape →
    13 ∉ field
  ending : o.dialect.recordEnding = .newline → last = true →
    ∀ escape, o.dialect.escape = .unquoted escape → field.getLast? ≠ some 13
  /-- a lone carriage return that leads as a comment -/
  lead : o.dialect.recordEnding = .newline → last = true → isFirst = true →
    o.dialect.comment = some 13 → o.dialect.escape = .mysql → field ≠ [13]

/-- The escape is one of the two that work outside quotes. -/
theorem escape_cases (hesc : o.dialect.escape.unquotedByte = some escape) :
    (o.dialect.escape = .mysql ∧ escape = 92) ∨ o.dialect.escape = .unquoted escape := by
  rcases he : o.dialect.escape with _ | x | _ | x <;> rw [he] at hesc
  · cases hesc
  · cases hesc
  · exact Or.inl ⟨rfl, (Option.some.inj hesc).symm⟩
  · exact Or.inr (by rw [Option.some.inj hesc])

theorem passes_escapeAll (hesc : o.dialect.escape.unquotedByte = some escape) (after : Bytes)
    {field : Bytes} (h : o.dialect.recordEnding = .crLf →
      ∀ escape, o.dialect.escape = .unquoted escape → 13 ∉ field) :
    Passes o after (escapeAll o.dialect escape field) := by
  induction field with
  | nil => exact .nil
  | cons b field ih =>
    have ih := ih fun hc x hx hmem => h hc x hx (List.mem_cons_of_mem b hmem)
    rw [escapeAll_cons]
    rcases escapeOne_cases o.dialect escape b with
      ⟨letter, hb, -⟩ | ⟨hb, -⟩ | ⟨hb, hne, hd, hr, hq, hcr⟩ <;> rw [hb]
    · exact .escaped hesc ih
    · exact .escaped hesc ih
    · refine .plain (by rw [hesc]; simpa using hne.symm) ?_ ih
      rintro (⟨h1, -⟩ | ⟨h1, -⟩ | ⟨hc, rfl⟩ | ⟨h1, -⟩)
      · exact hd h1
      · exact hr h1
      · rcases escape_cases hesc with ⟨hm, -⟩ | hx
        · exact hcr hm rfl
        · exact h hc escape hx List.mem_cons_self
      · exact hq h1

/-- **The scan passes over an escaped field.** -/
theorem passes_escapedText (hesc : o.dialect.escape.unquotedByte = some escape) (after : Bytes)
    {isFirst last : Bool} {field : Bytes} (h : ReturnsApart o isFirst last field) :
    Passes o after (escapedText o.dialect escape field isFirst) := by
  unfold escapedText
  split
  · rename_i hlead
    simp only [Bool.and_eq_true] at hlead
    obtain ⟨b, tail, rfl, -⟩ := leads_cons hlead.2
    exact .escaped hesc (passes_escapeAll hesc after fun hc x hx hmem =>
      h.within hc x hx (List.mem_cons_of_mem b hmem))
  · exact passes_escapeAll hesc after h.within

/-- Escaped text ends in a carriage return only where the field does. -/
theorem escapeAll_getLast (hesc : o.dialect.escape.unquotedByte = some escape) {field : Bytes}
    (h : ∀ x, o.dialect.escape = .unquoted x → field.getLast? ≠ some 13) :
    (escapeAll o.dialect escape field).getLast? ≠ some 13 := by
  rcases List.eq_nil_or_concat field with rfl | ⟨init, b, hfield⟩
  · simp [escapeAll]
  rw [List.concat_eq_append] at hfield
  subst hfield
  have hb : ∀ x, o.dialect.escape = .unquoted x → b ≠ 13 := by
    intro x hx hb
    exact h x hx (by simp [hb])
  have hcr : (o.dialect.escape = .mysql → b ≠ 13) → b ≠ 13 := by
    rcases escape_cases hesc with ⟨hm, -⟩ | hx
    · exact fun h => h hm
    · exact fun _ => hb escape hx
  rw [escapeAll_concat, List.getLast?_append]
  rcases escapeOne_cases o.dialect escape b with
    ⟨letter, hone, -, -, hl⟩ | ⟨hone, -, hne⟩ | ⟨hone, -, -, -, -, hne⟩ <;> rw [hone]
  · have hne : letter ≠ 13 := by rintro rfl; revert hl; decide
    simpa using hne
  · simpa using hcr hne
  · simpa using hcr hne

theorem escapedText_getLast (hesc : o.dialect.escape.unquotedByte = some escape) {isFirst : Bool}
    {field : Bytes} (h : ReturnsApart o isFirst true field)
    (hr : o.dialect.recordEnding = .newline) :
    (escapedText o.dialect escape field isFirst).getLast? ≠ some 13 := by
  unfold escapedText
  split
  · rename_i hlead
    simp only [Bool.and_eq_true] at hlead
    obtain ⟨b, tail, rfl, hb⟩ := leads_cons hlead.2
    simp only [List.take_succ_cons, List.take_zero, List.drop_succ_cons, List.drop_zero]
    cases tail with
    | nil =>
      have hne : b ≠ 13 := by
        rintro rfl
        rcases escape_cases hesc with ⟨hm, -⟩ | hx
        · rcases hb with hb | hb
          · cases hb
          · exact h.lead hr rfl hlead.1 hb hm rfl
        · exact h.ending hr rfl escape hx rfl
      simpa [escapeAll] using hne
    | cons c tail =>
      have hlast : (escapeAll o.dialect escape (c :: tail)).getLast? ≠ some 13 :=
        escapeAll_getLast hesc fun x hx => by simpa using h.ending hr rfl x hx
      have hne : escapeAll o.dialect escape (c :: tail) ≠ [] := by
        rw [escapeAll_cons]
        rcases escapeOne_cases o.dialect escape c with ⟨_, hone, -⟩ | ⟨hone, -⟩ | ⟨hone, -⟩ <;>
          simp [hone]
      rw [List.getLast?_append_of_ne_nil _ hne]
      exact hlast
  · exact escapeAll_getLast hesc fun x hx => h.ending hr rfl x hx

/-- Escaped text does not begin with a quote. -/
theorem escapedText_head (hs : o.dialect.Sound) (hesc : o.dialect.escape.unquotedByte = some escape)
    (field : Bytes) (isFirst : Bool) :
    (escapedText o.dialect escape field isFirst).head? ≠ some o.dialect.quote := by
  have hne := (hs.escape escape (Or.inr hesc)).2.1
  unfold escapedText
  split
  · simpa using hne
  · cases field with
    | nil => simp [escapeAll]
    | cons b field =>
      rw [escapeAll_cons]
      rcases escapeOne_cases o.dialect escape b with
        ⟨letter, hone, -⟩ | ⟨hone, -⟩ | ⟨hone, -, -, -, hq, -⟩ <;> rw [hone]
      · simpa using hne
      · simpa using hne
      · simpa using hq

/-- Only a structural `N` is spelled like the marker of NULL. -/
theorem escapedText_ne_marker {isFirst : Bool} {field : Bytes} (hfield : field ≠ [92, 78])
    (h : escape = 92 → field = [78] → 78 ≠ o.dialect.delimiter ∧
      78 ≠ o.dialect.recordEnding.byte ∧ 78 ≠ o.dialect.quote ∧
        (isFirst = true → o.dialect.comment ≠ some 78)) :
    escapedText o.dialect escape field isFirst ≠ [92, 78] := by
  have hnil : ∀ {tail : Bytes}, escapeAll o.dialect escape tail = [] → tail = [] := by
    intro tail ht
    cases tail with
    | nil => rfl
    | cons c tail =>
      rw [escapeAll_cons] at ht
      rcases escapeOne_cases o.dialect escape c with ⟨_, hone, -⟩ | ⟨hone, -⟩ | ⟨hone, -⟩ <;>
        rw [hone] at ht <;> cases ht
  unfold escapedText
  intro htext
  split at htext
  · rename_i hlead
    simp only [Bool.and_eq_true] at hlead
    obtain ⟨b, tail, rfl, hb⟩ := leads_cons hlead.2
    simp only [List.take_succ_cons, List.take_zero, List.drop_succ_cons, List.drop_zero,
      List.cons_append, List.nil_append, List.cons.injEq] at htext
    obtain ⟨rfl, rfl, htail⟩ := htext
    obtain rfl := hnil htail
    rcases hb with hb | hb
    · cases hb
    · exact (h rfl rfl).2.2.2 hlead.1 hb
  · cases field with
    | nil => cases htext
    | cons b tail =>
      rw [escapeAll_cons] at htext
      rcases escapeOne_cases o.dialect escape b with
        ⟨letter, hone, -, -, hl⟩ | ⟨hone, hs, -⟩ | ⟨hone, hne, -⟩ <;> rw [hone] at htext <;>
        simp only [List.cons_append, List.nil_append, List.cons.injEq] at htext
      · obtain ⟨-, rfl, -⟩ := htext
        revert hl; decide
      · obtain ⟨rfl, rfl, htail⟩ := htext
        obtain rfl := hnil htail
        obtain ⟨h1, h2, h3, -⟩ := h rfl rfl
        rcases hs with hs | hs | hs | hs
        · cases hs
        · exact h1 hs
        · exact h2 hs
        · exact h3 hs
      · obtain ⟨rfl, htail⟩ := htext
        cases tail with
        | nil => cases htail
        | cons c tail =>
          rw [escapeAll_cons] at htail
          rcases escapeOne_cases o.dialect escape c with
            ⟨letter, hone, -⟩ | ⟨hone, -⟩ | ⟨hone, -⟩ <;> rw [hone] at htail <;>
            simp only [List.cons_append, List.nil_append, List.cons.injEq, reduceCtorEq,
              and_false] at htail
          obtain ⟨rfl, htail⟩ := htail
          obtain rfl := hnil htail
          exact hfield rfl

end escaped

/-! ## The spelling of a field -/

/-- What a reader sees of an emitted field. -/
def Field.ofOption : Option Bytes → Field
  | some bytes => ⟨bytes, false⟩
  | none => ⟨[], true⟩

/-- The field is written between quotes. -/
def quotesField (o : FormatSettings) (isFirst : Bool) (field : Bytes) : Bool :=
  (o.nulls == .postgresCsv && field == []) || (o.nulls == .mysql && field == [92, 78]) ||
    match o.quoting with
    | .necessary => needsQuotes o.dialect field isFirst
    | .nonNumeric => needsQuotes o.dialect field isFirst || !isNumeric field
    | .always => true
    | .never | .raw => false

/-- The marker of NULL passes in front of `after`, and does not look quoted. -/
structure MarkerPasses (o : FormatSettings) (after : Bytes) : Prop where
  quote : o.syntax'.quotingEnabled = true → o.dialect.quote ≠ 92
  passes : o.dialect.escape.unquotedByte = some 92 ∨
    (¬ stopsAt o 92 (78 :: after) ∧ o.dialect.escape.unquotedByte ≠ some 78 ∧
      ¬ stopsAt o 78 after)

/-- What a field must not contain for its spelling to survive. -/
structure FieldStands (o : FormatSettings) (isFirst last : Bool) (after : Bytes)
    (field : Option Bytes) : Prop where
  letters : ∀ bytes, field = some bytes → LettersApart o isFirst bytes
  returns : ∀ bytes, field = some bytes → ReturnsApart o isFirst last bytes
  absent : o.nulls = .mysql → field = none → MarkerPasses o after
  /-- the marker as a value: its `N` is not escaped -/
  present : o.nulls = .mysql → field = some [92, 78] → ∀ escape,
    o.dialect.escape.unquotedByte = some escape → escape ≠ 78 ∧ ¬ stopsAt o 78 after
  /-- a lone `N` that is escaped is spelled like the marker -/
  distinct : o.nulls = .mysql → field = some [78] → o.dialect.escape.unquotedByte = some 92 →
    78 ≠ o.dialect.delimiter ∧ 78 ≠ o.dialect.recordEnding.byte ∧ 78 ≠ o.dialect.quote ∧
      (isFirst = true → o.dialect.comment ≠ some 78)

section field

variable {o : FormatSettings} {after text : Bytes} {isFirst last : Bool}

/-- A present field of a dialect that quotes: between quotes, or as it stands. -/
theorem presentText_cases {field : Bytes} (hesc : o.dialect.escape.unquotedByte = none)
    (hquoting : o.quoting ≠ .raw)
    (h : presentText o.dialect o.quoting o.nulls field isFirst = .ok text) :
    (quotesField o isFirst field = true ∧ quotedText o.dialect field = .ok text) ∨
      (quotesField o isFirst field = false ∧ text = field ∧
        needsQuotes o.dialect field isFirst = false) := by
  unfold presentText at h
  rw [hesc] at h
  simp only at h
  by_cases hp : o.nulls = .postgresCsv ∧ field = []
  · rw [if_pos hp] at h
    exact Or.inl ⟨by simp [quotesField, hp], h⟩
  rw [if_neg hp] at h
  have hp' : (o.nulls == .postgresCsv && field == []) = false := by simpa using hp
  by_cases hm : o.nulls = .mysql ∧ field = [92, 78]
  · rw [if_pos hm] at h
    refine Or.inl ⟨by simp [quotesField, hm], ?_⟩
    cases hq : o.quoting <;> rw [hq] at h <;> simp only at h <;> first | exact h | cases h
  rw [if_neg hm] at h
  have hm' : (o.nulls == .mysql && field == [92, 78]) = false := by simpa using hm
  unfold plainText bareText at h
  unfold quotesField
  rw [hp', hm']
  simp only [Bool.false_or]
  cases hq : o.quoting <;> rw [hq] at h <;> simp only at h ⊢
  · split at h
    · rename_i hn; exact Or.inl ⟨hn, h⟩
    · rename_i hn; exact Or.inr ⟨by simpa using hn, (Except.ok.inj h).symm, by simpa using hn⟩
  · exact Or.inl ⟨trivial, h⟩
  · split at h
    · cases h
    · rename_i hn; exact Or.inr ⟨trivial, (Except.ok.inj h).symm, by simpa using hn⟩
  · split at h
    · rename_i hn; exact Or.inl ⟨hn, h⟩
    · rename_i hn
      simp only [Bool.or_eq_true, not_or, Bool.not_eq_true] at hn
      exact Or.inr ⟨by simp [hn], (Except.ok.inj h).symm, hn.1⟩
  · exact absurd hq hquoting

/-- A format that writes quotes reads them. -/
theorem quotingEnabled_of_quotes (valid : o.Valid) {field : Bytes}
    (h : quotesField o isFirst field = true) (hesc : o.dialect.escape.unquotedByte = none) :
    o.syntax'.quotingEnabled = true := by
  have hesc' : o.dialect.escape.escapesUnquoted = false := by simp [Escape.escapesUnquoted, hesc]
  unfold FormatSettings.Valid FormatSettings.invalidity at valid
  split at valid
  · cases valid
  split at valid
  · cases valid
  split at valid
  · cases valid
  rename_i hmode
  by_contra hen
  simp only [Bool.not_eq_true] at hen
  simp only [hen, Bool.not_false, Bool.true_and, Bool.or_eq_true, beq_iff_eq, not_or] at hmode
  rw [hen, hesc'] at valid
  unfold quotesField at h
  cases hn : o.nulls <;> cases hq : o.quoting <;> simp [hn, hq] at hmode valid h

/-- A field that needs no quotes has no byte that ends it. -/
theorem clean_of_bare {field : Bytes} (h : needsQuotes o.dialect field isFirst = false) :
    (∀ b ∈ field, b ≠ o.dialect.delimiter ∧ b ≠ o.dialect.recordEnding.byte ∧
      b ≠ o.dialect.quote ∧
        (o.dialect.recordEnding = .newline ∨ o.dialect.recordEnding = .crLf → b ≠ 13)) ∧
      (isFirst = true → o.dialect.leads field = false) := by
  rw [needsQuotes_eq, Bool.or_eq_false_iff, Bool.and_eq_false_iff] at h
  obtain ⟨hlead, hany⟩ := h
  refine ⟨fun b hb => ?_, fun hf => ?_⟩
  · have hno := List.any_eq_false.mp hany b hb
    unfold Dialect.structural at hno
    have hn : o.dialect.recordEnding = .newline ∨ o.dialect.recordEnding = .crLf ↔
        o.dialect.newline = true := by simp [Dialect.newline]
    rw [hn]
    split at hno <;> simp_all
  · rcases hlead with h | h
    · rw [hf] at h; cases h
    · exact h

theorem unquotedField_present {raw : Bytes} (hnull : rawFieldIsNull o.nulls raw = false)
    (hesc : o.dialect.escape.unquotedByte = none) : unquotedField o raw = ⟨raw, false⟩ := by
  simp [unquotedField, hnull, hesc]

theorem unquotedField_escaped {escape : UInt8} {raw : Bytes}
    (hnull : rawFieldIsNull o.nulls raw = false)
    (hesc : o.dialect.escape.unquotedByte = some escape) :
    unquotedField o raw = ⟨decode (o.dialect.escape == .mysql) escape raw, false⟩ := by
  simp [unquotedField, hnull, hesc, unescapeLoop_eq]

/-- A format with unquoted escapes has no PostgreSQL NULLs. -/
theorem nulls_of_escapes (valid : o.Valid) (hesc : o.dialect.escape.escapesUnquoted = true) :
    o.nulls ≠ .postgresCsv := by
  unfold FormatSettings.Valid FormatSettings.invalidity at valid
  intro hn
  split at valid
  · cases valid
  split at valid
  · cases valid
  split at valid
  · cases valid
  · simp [hn, hesc] at valid

/-- A present field of a dialect that escapes. -/
theorem escapedField_spells (valid : o.Valid) {escape : UInt8} {field : Bytes}
    (hesc : o.dialect.escape.unquotedByte = some escape)
    (hst : FieldStands o isFirst last after (some field))
    (h : presentText o.dialect o.quoting o.nulls field isFirst = .ok text) :
    FieldSpells o after text ⟨field, false⟩ ∧ (last = true → CrFree o text) := by
  have hs := valid.sound
  have hpostgres := nulls_of_escapes valid (by simp [Escape.escapesUnquoted, hesc])
  unfold presentText at h
  rw [hesc] at h
  simp only at h
  by_cases hm : o.nulls = .mysql ∧ field = [92, 78]
  · -- the marker as a value
    rw [if_pos hm] at h
    obtain ⟨hm, rfl⟩ := hm
    obtain rfl := Except.ok.inj h
    obtain ⟨hne, hstop⟩ := hst.present hm rfl escape hesc
    have hraw : Passes o after [escape, 92, 78] :=
      .escaped hesc (.plain (by rw [hesc]; simpa using hne) hstop .nil)
    have hnull : rawFieldIsNull o.nulls [escape, 92, 78] = false := by simp [hm, rawFieldIsNull]
    have hvalue : unquotedField o [escape, 92, 78] = ⟨[92, 78], false⟩ := by
      rw [unquotedField_escaped hnull hesc, decode_escape,
        unescapeByte_self fun _ => by decide, decode]
    refine ⟨hvalue ▸ .unquoted hraw fun _ => ?_, fun _ _ _ => by simp⟩
    simpa using (hs.escape escape (Or.inr hesc)).2.1
  · rw [if_neg hm] at h
    obtain rfl := Except.ok.inj h
    have hnull : rawFieldIsNull o.nulls (escapedText o.dialect escape field isFirst) = false := by
      cases hn : o.nulls with
      | none => rfl
      | postgresCsv => exact absurd hn hpostgres
      | mysql =>
        have hne : escapedText o.dialect escape field isFirst ≠ [92, 78] :=
          escapedText_ne_marker (fun hf => hm ⟨hn, hf⟩) fun hx hf => by
            subst hx hf; exact hst.distinct hn rfl hesc
        simpa [rawFieldIsNull] using hne
    have hvalue : unquotedField o (escapedText o.dialect escape field isFirst) =
        ⟨field, false⟩ := by
      rw [unquotedField_escaped hnull hesc, decode_escapedText hesc (hst.letters field rfl)]
    refine ⟨hvalue ▸ .unquoted (passes_escapedText hesc after (hst.returns field rfl))
      fun _ => escapedText_head hs hesc field isFirst, ?_⟩
    rintro rfl hr -
    exact escapedText_getLast hesc (hst.returns field rfl) hr

/-- A present field of a dialect that quotes. -/
theorem quotedField_spells (valid : o.Valid) {field : Bytes}
    (hesc : o.dialect.escape.unquotedByte = none) (hquoting : o.quoting ≠ .raw)
    (h : presentText o.dialect o.quoting o.nulls field isFirst = .ok text) :
    FieldSpells o after text ⟨field, false⟩ ∧ CrFree o text := by
  rcases presentText_cases hesc hquoting h with ⟨hq, htext⟩ | ⟨hq, rfl, hbare⟩
  · have hen := quotingEnabled_of_quotes valid hq hesc
    exact ⟨.quoted hen htext, fun _ hhead => absurd (quotedText_head htext) (hhead hen)⟩
  · obtain ⟨hclean, -⟩ := clean_of_bare hbare
    have hnull : rawFieldIsNull o.nulls text = false := by
      simp only [quotesField, Bool.or_eq_false_iff, Bool.and_eq_false_iff] at hq
      cases hn : o.nulls <;> simp [hn, rawFieldIsNull] at hq ⊢
      · exact hq.1
      · exact hq.1
    have hraw : Passes o after text := by
      have hall : ∀ raw : Bytes, (∀ b ∈ raw, b ∈ text) → Passes o after raw := by
        intro raw
        induction raw with
        | nil => exact fun _ => .nil
        | cons b raw ih =>
          intro hmem
          obtain ⟨hd, hr, hqt, hcr⟩ := hclean b (hmem b List.mem_cons_self)
          refine .plain (by simp [hesc]) ?_ (ih fun c hc => hmem c (List.mem_cons_of_mem b hc))
          rintro (⟨h1, -⟩ | ⟨h1, -⟩ | ⟨hc, h1⟩ | ⟨h1, -⟩)
          · exact hd h1
          · exact hr h1
          · exact hcr (Or.inr hc) h1
          · exact hqt h1
      exact hall text fun b hb => hb
    refine ⟨unquotedField_present hnull hesc ▸ .unquoted hraw fun _ hhead =>
      (hclean _ (List.mem_of_head? hhead)).2.2.1 rfl, fun hr _ hlast => ?_⟩
    exact (hclean 13 (List.mem_of_getLast? hlast)).2.2.2 (Or.inl hr) rfl

/-- **The text of a field spells it.** -/
theorem fieldText_spells (valid : o.Valid) (hquoting : o.quoting ≠ .raw) {field : Option Bytes}
    (hpresent : o.nulls = .none → field ≠ none)
    (hst : FieldStands o isFirst last after field)
    (h : fieldText o.dialect o.quoting o.nulls field isFirst = .ok text) :
    FieldSpells o after text (.ofOption field) ∧ (last = true → CrFree o text) := by
  cases field with
  | some field =>
    rcases hesc : o.dialect.escape.unquotedByte with _ | escape
    · obtain ⟨h1, h2⟩ := quotedField_spells valid hesc hquoting h
      exact ⟨h1, fun _ => h2⟩
    · exact escapedField_spells valid hesc hst h
  | none =>
    have h : absentText o.dialect o.quoting o.nulls = .ok text := h
    unfold absentText at h
    cases hn : o.nulls with
    | none => exact absurd rfl (hpresent hn)
    | postgresCsv =>
      rw [hn] at h
      obtain rfl := Except.ok.inj h
      have hvalue : unquotedField o [] = .ofOption none := by
        simp [unquotedField, hn, rawFieldIsNull, Field.ofOption]
      exact ⟨hvalue ▸ .unquoted .nil (by simp), fun _ _ _ => by simp⟩
    | mysql =>
      rw [hn] at h
      obtain rfl := Except.ok.inj h
      obtain ⟨hquote, hpass⟩ := hst.absent hn rfl
      have hraw : Passes o after [92, 78] := by
        by_cases hx : o.dialect.escape.unquotedByte = some 92
        · exact .escaped hx .nil
        · obtain ⟨h1, h2, h3⟩ := hpass.resolve_left hx
          exact .plain hx h1 (.plain h2 h3 .nil)
      have hvalue : unquotedField o [92, 78] = .ofOption none := by
        simp [unquotedField, hn, rawFieldIsNull, Field.ofOption]
      refine ⟨hvalue ▸ .unquoted hraw fun hen => ?_, fun _ _ _ => by simp⟩
      simpa using (hquote hen).symm

/-- A field whose text begins with a quote is written between quotes. -/
theorem quotes_of_head (valid : o.Valid) (hquoting : o.quoting ≠ .raw) {field : Option Bytes}
    (hpresent : o.nulls = .none → field ≠ none)
    (hst : FieldStands o isFirst last after field)
    (h : fieldText o.dialect o.quoting o.nulls field isFirst = .ok text)
    (hen : o.syntax'.quotingEnabled = true) (hhead : text.head? = some o.dialect.quote) :
    ∃ bytes, field = some bytes ∧ o.dialect.escape.unquotedByte = none ∧
      quotesField o isFirst bytes = true := by
  cases field with
  | some field =>
    rcases hesc : o.dialect.escape.unquotedByte with _ | escape
    · rcases presentText_cases hesc hquoting h with ⟨hq, -⟩ | ⟨-, rfl, hbare⟩
      · exact ⟨field, rfl, rfl, hq⟩
      · exact absurd rfl ((clean_of_bare hbare).1 _ (List.mem_of_head? hhead)).2.2.1
    · have hs := valid.sound
      have h : presentText o.dialect o.quoting o.nulls field isFirst = .ok text := h
      unfold presentText at h
      rw [hesc] at h
      simp only at h
      split at h
      · obtain rfl := Except.ok.inj h
        exact absurd (Option.some.inj hhead) (hs.escape escape (Or.inr hesc)).2.1
      · obtain rfl := Except.ok.inj h
        exact absurd hhead (escapedText_head hs hesc field isFirst)
  | none =>
    have h : absentText o.dialect o.quoting o.nulls = .ok text := h
    unfold absentText at h
    cases hn : o.nulls with
    | none => exact absurd rfl (hpresent hn)
    | postgresCsv =>
      rw [hn] at h
      obtain rfl := Except.ok.inj h
      cases hhead
    | mysql =>
      rw [hn] at h
      obtain rfl := Except.ok.inj h
      exact absurd (Option.some.inj hhead).symm ((hst.absent hn rfl).quote hen)

end field

/-! ## The spelling of a record -/

/-- The field is written between quotes in its record: `lone` when it is the
    only one. -/
def writesQuotes (o : FormatSettings) (isFirst lone : Bool) : Option Bytes → Bool
  | some field => o.dialect.escape.unquotedByte.isNone &&
      (quotesField o isFirst field || (lone && field.isEmpty && o.quoting == .necessary))
  | none => false

/-- The fields from one on stand, in front of `rest`. -/
def RowStands (o : FormatSettings) (rest : Bytes) : (isFirst : Bool) → List (Option Bytes) → Prop
  | _, [] => True
  | isFirst, [field] => FieldStands o isFirst true (o.dialect.endingText ++ rest) field
  | isFirst, field :: fields =>
    FieldStands o isFirst false
      ((restText o.dialect o.quoting o.nulls fields).toOption.getD [] ++
        (o.dialect.endingText ++ rest)) field ∧ RowStands o rest false fields

/-- Where whitespace is skipped behind closing quotes it hides no separator:
    `final` when nothing follows the record. -/
def rowSpaced (o : FormatSettings) (final : Bool) : (isFirst : Bool) → List (Option Bytes) → Bool
  | _, [] => true
  | isFirst, [field] =>
    !o.syntax'.permitsTrailingWhitespace || !writesQuotes o isFirst isFirst field ||
      !o.dialect.endingText.head?.any isTrailingSpace ||
      (final && o.dialect.endingText.all isTrailingSpace)
  | isFirst, field :: fields =>
    (!o.syntax'.permitsTrailingWhitespace || !writesQuotes o isFirst false field ||
      !isTrailingSpace o.dialect.delimiter) && rowSpaced o final false fields

section row

variable {o : FormatSettings} {rest : Bytes}

theorem bind_ok_iff {ε α β : Type} {x : Except ε α} {f : α → Except ε β} {b : β} :
    x >>= f = .ok b ↔ ∃ a, x = .ok a ∧ f a = .ok b := by
  cases x with
  | error e => simp [bind, Except.bind]
  | ok a => simp [bind, Except.bind]

/-- Fields spell a record from one on. -/
theorem row_spells (valid : o.Valid) (hquoting : o.quoting ≠ .raw) (fields : List (Option Bytes)) :
    ∀ {field : Option Bytes} {isFirst final : Bool} {t u : Bytes},
      (o.nulls = .none → none ∉ field :: fields) →
      RowStands o rest isFirst (field :: fields) →
      rowSpaced o final isFirst (field :: fields) = true → (final = true → rest = []) →
      fieldText o.dialect o.quoting o.nulls field isFirst = .ok t →
      restText o.dialect o.quoting o.nulls fields = .ok u →
      FieldsSpell o rest (t ++ u ++ o.dialect.endingText)
        ((field :: fields).map Field.ofOption) := by
  induction fields with
  | nil =>
    intro field isFirst final t u hpresent hst hspaced hfinal ht hu
    obtain rfl := Except.ok.inj hu
    have hpresent' : o.nulls = .none → field ≠ none := fun hn hf =>
      hpresent hn (by rw [hf]; exact List.mem_cons_self)
    obtain ⟨hspells, hcr⟩ := fieldText_spells valid hquoting hpresent' hst ht
    rw [List.append_nil]
    refine .last hspells (hcr rfl) ?_
    simp only [rowSpaced, Bool.or_eq_true, Bool.not_eq_true', Bool.and_eq_true] at hspaced
    rcases hspaced with ((hp | hq) | hsep) | ⟨hf, hall⟩
    · exact Or.inl fun hp' => absurd hp' (by simp [hp])
    · refine Or.inl fun _ hhead hen => ?_
      obtain ⟨bytes, rfl, hesc, hquotes⟩ :=
        quotes_of_head valid hquoting hpresent' hst ht hen hhead
      simp [writesQuotes, hesc, hquotes] at hq
    · exact Or.inl fun _ _ _ b hb => by simpa [hb] using hsep
    · exact Or.inr ⟨hfinal hf, hall⟩
  | cons next fields ih =>
    intro field isFirst final t u hpresent hst hspaced hfinal ht hu
    have hpresent' : o.nulls = .none → field ≠ none := fun hn hf =>
      hpresent hn (by rw [hf]; exact List.mem_cons_self)
    obtain ⟨hst, hrest⟩ := hst
    obtain ⟨t', ht', hu⟩ := bind_ok_iff.mp hu
    obtain ⟨u', hu', hu⟩ := bind_ok_iff.mp hu
    obtain rfl := Except.ok.inj hu
    have hafter : (restText o.dialect o.quoting o.nulls (next :: fields)).toOption.getD [] =
        o.dialect.delimiterText ++ t' ++ u' := by
      rw [restText, ht']
      simp only [bind, Except.bind, hu']
      rfl
    rw [hafter] at hst
    obtain ⟨hspells, -⟩ := fieldText_spells valid hquoting hpresent' hst ht
    simp only [rowSpaced, Bool.and_eq_true, Bool.or_eq_true, Bool.not_eq_true'] at hspaced
    obtain ⟨hsep, hspaced⟩ := hspaced
    have htail := ih (fun hn hf => hpresent hn (List.mem_cons_of_mem field hf)) hrest hspaced hfinal
      ht' hu'
    have htext : t ++ (o.dialect.delimiterText ++ t' ++ u') ++ o.dialect.endingText =
        t ++ o.dialect.delimiterText ++ (t' ++ u' ++ o.dialect.endingText) := by simp
    rw [htext]
    refine .more (by simpa using hspells) (fun hp hhead hen b hb => ?_) htail
    rcases hsep with (hp' | hq) | hd
    · rw [hp] at hp'; cases hp'
    · obtain ⟨bytes, rfl, hesc, hquotes⟩ :=
        quotes_of_head valid hquoting hpresent' hst ht hen hhead
      simp [writesQuotes, hesc, hquotes] at hq
    · obtain rfl := Option.some.inj hb
      exact hd

end row

end Coseva
