/-
  Coseva — where a record ends by its bytes alone.

  The frame of a record forgets the limits, the fields and the kernels of the
  parser: it reads one byte after the other, and only separators, quotes and
  escapes move it.

  * `Frame.step`: what the byte at a point does;
  * `Frame.Stops`: the record at a point ends at an offset;
  * `Frame.Leads`: the record ends at one point where it does at another.
-/
import Coseva.Prescan

namespace Coseva

namespace Frame

open Engine

/-- What the byte at a point does to the frame. -/
inductive Step
  | next (p : ScanPoint)
  | ends (stop : ℕ)
  /-- the record is refused, or goes on behind the text -/
  | halt
  deriving DecidableEq, Repr

/-- The bytes a search in quotes stops at. -/
def quotedByte (d : Dialect) (b : UInt8) : Bool :=
  b == d.quote ||
    match d.escape with
    | .doubleQuote => false
    | .backslash escape | .unquoted escape => b == escape
    | .mysql => b == 92

section step

variable (cfg : ParserSettings) (input : Bytes) (recordStart : ℕ)

/-- The quote at `pos` opens the field that starts at `fieldStart`. -/
def opens (fieldStart pos : ℕ) : Bool :=
  pos == fieldStart || (cfg.skipInitialSpace && fieldStart != recordStart
    && (slice input fieldStart pos).all (· == 32))

/-- Behind a closing quote. -/
def closed (afterQuote : ℕ) : Step :=
  let d := cfg.dialect
  let afterQuote := skipPostQuoteWhitespace input cfg.syntax'.permitsTrailingWhitespace afterQuote
  let after := input.drop (afterQuote + 1)
  match input[afterQuote]? with
  | none => .halt
  | some next =>
    if next == d.delimiter && d.delimiterTail.confirms after then
      .next ⟨afterQuote + d.delimiterTail.width, afterQuote + d.delimiterTail.width, false⟩
    else if !(d.recordEnding == .crLf) && next == d.recordEnding.byte
        && d.endingTail.confirms after then
      .ends (afterQuote + d.endingTail.width)
    else if d.recordEnding.stripsCr && next == 13 && after.head? == some 10 then
      .ends (afterQuote + 2)
    else .halt

/-- A byte in quotes. -/
def quoted (fieldStart pos : ℕ) (byte : UInt8) : Step :=
  if quotedByte cfg.dialect byte then
    match quotedStop input cfg.toFormatSettings input.length pos with
    | .escaped _ => .next ⟨pos + 2, fieldStart, true⟩
    | .closing => closed cfg input (pos + 1)
    | .invalid _ _ => .halt
  else .next ⟨pos + 1, fieldStart, true⟩

/-- A byte outside quotes. -/
def unquoted (fieldStart pos : ℕ) (byte : UInt8) : Step :=
  if cfg.syntax'.quotingEnabled && byte == cfg.dialect.quote
      && opens cfg input recordStart fieldStart pos then
    .next ⟨pos + 1, pos, true⟩
  else if searchByte cfg.toFormatSettings byte then
    match unquotedStop cfg input fieldStart pos with
    | .resume cursor => .next ⟨cursor, fieldStart, false⟩
    | .invalid _ => .halt
    | .ends _ location terminated =>
      if terminated then .ends location else .next ⟨location, location, false⟩
  else .next ⟨pos + 1, fieldStart, false⟩

/-- The byte at a point. -/
def step (p : ScanPoint) : Step :=
  match input[p.cursor]? with
  | none => .halt
  | some byte =>
    if p.inQuotes then quoted cfg input p.fieldStart p.cursor byte
    else unquoted cfg input recordStart p.fieldStart p.cursor byte

/-- The record that goes on at a point ends at `stop`. -/
inductive Stops : ScanPoint → ℕ → Prop
  | ends {p : ScanPoint} {stop : ℕ} : step cfg input recordStart p = .ends stop → Stops p stop
  | next {p q : ScanPoint} {stop : ℕ} : step cfg input recordStart p = .next q → Stops q stop →
      Stops p stop

/-- The record ends at `p` where it ends at `q`. -/
def Leads (p q : ScanPoint) : Prop :=
  ∀ stop, Stops cfg input recordStart q stop → Stops cfg input recordStart p stop

end step

variable {cfg : ParserSettings} {input : Bytes} {recordStart : ℕ} {p q r : ScanPoint}

theorem Leads.refl : Leads cfg input recordStart p p := fun _ h => h

theorem Leads.trans (h : Leads cfg input recordStart p q) (h' : Leads cfg input recordStart q r) :
    Leads cfg input recordStart p r := fun stop hr => h stop (h' stop hr)

theorem Leads.of_step (h : step cfg input recordStart p = .next q) : Leads cfg input recordStart p q :=
  fun _ => .next h

/-- A record ends at one offset. -/
theorem Stops.unique {stop stop' : ℕ} (h : Stops cfg input recordStart p stop)
    (h' : Stops cfg input recordStart p stop') : stop = stop' := by
  induction h with
  | ends hends =>
    cases h' with
    | ends hends' => rw [hends] at hends'; exact Step.ends.inj hends'
    | next hnext _ => rw [hends] at hnext; cases hnext
  | next hnext _ ih =>
    cases h' with
    | ends hends => rw [hnext] at hends; cases hends
    | next hnext' h' =>
      rw [hnext] at hnext'
      obtain rfl := Step.next.inj hnext'
      exact ih h'

theorem findQuoted_quotedByte (d : Dialect) (remaining : Bytes) :
    findQuoted d remaining = remaining.findIdx? (quotedByte d) := by
  have hp : ∀ p q : UInt8 → Bool, (∀ b, p b = q b) →
      remaining.findIdx? p = remaining.findIdx? q := fun p q h => by rw [funext h]
  unfold findQuoted find1 find2
  rcases hescape : d.escape with _ | escape | _ | escape <;> simp only <;>
    refine hp _ _ fun b => ?_ <;> simp only [quotedByte, hescape, Bool.or_false]

/-- What a stop in quotes means does not depend on the end of the scan. -/
theorem quotedStop_bound (input : Bytes) (o : FormatSettings) (bound bound' pos : ℕ) :
    (∀ byte, quotedStop input o bound pos = .escaped byte →
        quotedStop input o bound' pos = .escaped byte) ∧
      (quotedStop input o bound pos = .closing → quotedStop input o bound' pos = .closing) := by
  unfold quotedStop
  rcases hescape : o.dialect.escape with _ | escape | _ | escape <;> simp only [hescape]
  · exact ⟨fun _ h => h, fun h => h⟩
  · exact ⟨fun _ h => h, fun h => h⟩
  · split_ifs
    · rcases input[pos + 1]? with _ | next
      · exact ⟨nofun, nofun⟩
      · exact ⟨fun _ h => h, nofun⟩
    · exact ⟨nofun, fun h => h⟩
  · split_ifs
    · rcases input[pos + 1]? with _ | next
      · exact ⟨nofun, nofun⟩
      · exact ⟨fun _ h => h, nofun⟩
    · exact ⟨nofun, fun h => h⟩

/-! ## Texts that are passed -/

/-- No quote between `pos` and `stop` opens the field that starts at `fieldStart`. -/
def Shut (cfg : ParserSettings) (input : Bytes) (recordStart fieldStart pos stop : ℕ) : Prop :=
  ∀ i, pos ≤ i → i < stop → cfg.syntax'.quotingEnabled = true →
    input[i]? = some cfg.dialect.quote → opens cfg input recordStart fieldStart i = false

/-- A text without a stop, in which no quote opens a field. -/
theorem leads_unquoted {fieldStart : ℕ} : ∀ {u v : Bytes} {pos : ℕ},
    Shut cfg input recordStart fieldStart pos (pos + u.length) → input.drop pos = u ++ v →
    (∀ b ∈ u, searchByte cfg.toFormatSettings b = false) →
    Leads cfg input recordStart ⟨pos, fieldStart, false⟩ ⟨pos + u.length, fieldStart, false⟩
  | [], _, _, _, _, _ => Leads.refl
  | b :: u, v, pos, hshut, hdrop, hu => by
    have hcons : input.drop pos = b :: (u ++ v) := hdrop
    have hb : input[pos]? = some b := Window.getElem?_of_drop (u := []) hcons rfl
    rw [List.length_cons, Nat.add_comm u.length, ← Nat.add_assoc] at hshut ⊢
    have hstep : step cfg input recordStart ⟨pos, fieldStart, false⟩ =
        .next ⟨pos + 1, fieldStart, false⟩ := by
      unfold step unquoted
      simp only [hb, Bool.false_eq_true, if_false]
      rw [if_neg, hu b List.mem_cons_self, if_neg Bool.false_ne_true]
      simp only [Bool.and_eq_true, beq_iff_eq, not_and, Bool.not_eq_true]
      rintro ⟨hquoting, rfl⟩
      exact hshut pos (Nat.le_refl _) (by omega) hquoting hb
    have hrest : input.drop (pos + 1) = u ++ v := Window.drop_of_drop (u := [b]) hdrop rfl
    have hnext : Leads cfg input recordStart ⟨pos + 1, fieldStart, false⟩
        ⟨pos + 1 + u.length, fieldStart, false⟩ :=
      leads_unquoted (fun i hi => hshut i (Nat.le_of_succ_le hi)) hrest
        fun x hx => hu x (List.mem_cons_of_mem b hx)
    exact (Leads.of_step hstep).trans hnext

/-- A text without a stop, in quotes. -/
theorem leads_quoted {fieldStart : ℕ} : ∀ {u v : Bytes} {pos : ℕ}, input.drop pos = u ++ v →
    (∀ b ∈ u, quotedByte cfg.dialect b = false) →
    Leads cfg input recordStart ⟨pos, fieldStart, true⟩ ⟨pos + u.length, fieldStart, true⟩
  | [], _, _, _, _ => Leads.refl
  | b :: u, v, pos, hdrop, hu => by
    have hcons : input.drop pos = b :: (u ++ v) := hdrop
    have hb : input[pos]? = some b := Window.getElem?_of_drop (u := []) hcons rfl
    have hstep : step cfg input recordStart ⟨pos, fieldStart, true⟩ =
        .next ⟨pos + 1, fieldStart, true⟩ := by
      unfold step quoted
      simp only [hb, if_true]
      rw [hu b List.mem_cons_self, if_neg Bool.false_ne_true]
    have hrest : input.drop (pos + 1) = u ++ v := Window.drop_of_drop (u := [b]) hdrop rfl
    have hnext : Leads cfg input recordStart ⟨pos + 1, fieldStart, true⟩
        ⟨pos + 1 + u.length, fieldStart, true⟩ :=
      leads_quoted hrest fun x hx => hu x (List.mem_cons_of_mem b hx)
    rw [List.length_cons, Nat.add_comm u.length, ← Nat.add_assoc]
    exact (Leads.of_step hstep).trans hnext

end Frame

end Coseva
