/-
  Coseva — RFC 4180 records byte by byte: the meaning that the kernels of the default
  dialect are compared with.

  * `Mode`, `step`: what one byte does in a field;
  * `run`, `record`: the record at the front of some bytes, the bytes ending in front of
    its end, or what is malformed in it;
  * `run_bare`, `run_quoted`: over bytes that end nothing.
-/
import Coseva.Engine

namespace Coseva

namespace Rfc

/-- Where in a field the next byte is. -/
inductive Mode
  /-- nothing of the field has been read -/
  | start
  | unquoted
  | quoted
  /-- behind a quote that closes the field, or is the first of a doubled one -/
  | closed
  /-- behind a closed field and a carriage return -/
  | closedCr
  deriving DecidableEq, Repr

/-- Why bytes begin with no record. -/
inductive Malformed
  /-- a quote inside a field that does not begin with one -/
  | quoteInField
  | textAfterQuote
  /-- no quote closes the field -/
  | unterminated
  deriving DecidableEq, Repr

/-- What a byte does. -/
inductive Step
  | go (mode : Mode) (field : Bytes)
  | field (field : Bytes)
  | record (field : Bytes)
  | malformed (reason : Malformed)
  deriving DecidableEq, Repr

/-- A field in front of a line feed. -/
def withoutCr (field : Bytes) : Bytes := if field.getLast? = some 13 then field.dropLast else field

/-- A byte of a field that no quote encloses. -/
def plain (field : Bytes) (byte : UInt8) : Step :=
  if byte = 44 then .field field
  else if byte = 10 then .record (withoutCr field)
  else .go .unquoted (field ++ [byte])

/-- One byte. -/
def step : Mode → Bytes → UInt8 → Step
  | .start, field, byte => if byte = 34 then .go .quoted field else plain field byte
  | .unquoted, field, byte => if byte = 34 then .malformed .quoteInField else plain field byte
  | .quoted, field, byte => if byte = 34 then .go .closed field else .go .quoted (field ++ [byte])
  | .closed, field, byte =>
    if byte = 34 then .go .quoted (field ++ [byte])
    else if byte = 44 then .field field
    else if byte = 10 then .record field
    else if byte = 13 then .go .closedCr field
    else .malformed .textAfterQuote
  | .closedCr, field, byte => if byte = 10 then .record field else .malformed .textAfterQuote

/-- What some bytes begin with. -/
inductive Outcome
  /-- a record, and where the next one begins -/
  | record (fields : List Bytes) (next : ℕ)
  | malformed (reason : Malformed)
  /-- the bytes end in front of the record's end -/
  | unfinished
  deriving DecidableEq, Repr

/-- The bytes from `pos` on, in a record with some fields and the front of another one. -/
def run : Mode → List Bytes → Bytes → ℕ → Bytes → Outcome
  | mode, _, _, _, [] => if mode = .quoted then .malformed .unterminated else .unfinished
  | mode, fields, field, pos, byte :: rest =>
    match step mode field byte with
    | .go mode field => run mode fields field (pos + 1) rest
    | .field field => run .start (fields ++ [field]) [] (pos + 1) rest
    | .record field => .record (fields ++ [field]) (pos + 1)
    | .malformed reason => .malformed reason

/-- The record at the front of some bytes. -/
def record (input : Bytes) : Outcome := run .start [] [] 0 input

example : record [97, 44, 34, 98, 34, 34, 34, 13, 10, 99, 10] = .record [[97], [98, 34]] 9 := by
  decide +kernel

/-! ## Stretches -/

section stretches

attribute [local simp] run step plain

/-- A byte that ends no field and is no quote. -/
def Bare (byte : UInt8) : Prop := byte ≠ 34 ∧ byte ≠ 44 ∧ byte ≠ 10

theorem step_bare {byte : UInt8} (h : Bare byte) (field : Bytes) :
    step .unquoted field byte = .go .unquoted (field ++ [byte]) := by
  simp [h.1, h.2.1, h.2.2]

/-- A field that does not begin with a quote. -/
theorem run_start {byte : UInt8} (h : byte ≠ 34) (fields : List Bytes) (field : Bytes) (pos : ℕ)
    (rest : Bytes) : run .start fields field pos (byte :: rest) =
      run .unquoted fields field pos (byte :: rest) := by
  simp [h]

theorem run_bare (fields : List Bytes) (text rest : Bytes) (h : ∀ byte ∈ text, Bare byte) :
    ∀ (field : Bytes) (pos : ℕ), run .unquoted fields field pos (text ++ rest) =
      run .unquoted fields (field ++ text) (pos + text.length) rest := by
  induction text with
  | nil =>
    intro field pos
    rw [List.nil_append, List.append_nil, List.length_nil, Nat.add_zero]
  | cons byte text ih =>
    intro field pos
    rw [List.cons_append, run, step_bare (h byte (List.mem_cons_self ..))]
    simp only
    rw [ih (fun b hb => h b (List.mem_cons_of_mem _ hb)), List.append_assoc, List.singleton_append,
      List.length_cons]
    congr 1
    omega

theorem run_quoted (fields : List Bytes) (text rest : Bytes) (h : ∀ byte ∈ text, byte ≠ 34) :
    ∀ (field : Bytes) (pos : ℕ), run .quoted fields field pos (text ++ rest) =
      run .quoted fields (field ++ text) (pos + text.length) rest := by
  induction text with
  | nil =>
    intro field pos
    rw [List.nil_append, List.append_nil, List.length_nil, Nat.add_zero]
  | cons byte text ih =>
    intro field pos
    rw [List.cons_append, run, step, if_neg (h byte (List.mem_cons_self ..))]
    simp only
    rw [ih (fun b hb => h b (List.mem_cons_of_mem _ hb)), List.append_assoc, List.singleton_append,
      List.length_cons]
    congr 1
    omega

/-- A doubled quote. -/
theorem run_doubled (fields : List Bytes) (field : Bytes) (pos : ℕ) (rest : Bytes) :
    run .quoted fields field pos (34 :: 34 :: rest) =
      run .quoted fields (field ++ [34]) (pos + 1 + 1) rest := by
  simp

/-- The quotes around a field. -/
theorem run_opening (fields : List Bytes) (field : Bytes) (pos : ℕ) (rest : Bytes) :
    run .start fields field pos (34 :: rest) = run .quoted fields field (pos + 1) rest := by
  simp

theorem run_closing (fields : List Bytes) (field : Bytes) (pos : ℕ) (rest : Bytes) :
    run .quoted fields field pos (34 :: rest) = run .closed fields field (pos + 1) rest := by
  simp

/-- A field that a comma may end. -/
def Mode.Ends (mode : Mode) : Prop := mode = .unquoted ∨ mode = .closed

theorem run_comma {mode : Mode} (h : mode.Ends) (fields : List Bytes) (field : Bytes) (pos : ℕ)
    (rest : Bytes) : run mode fields field pos (44 :: rest) =
      run .start (fields ++ [field]) [] (pos + 1) rest := by
  rcases h with rfl | rfl
  · simp
  · simp

theorem run_lineFeed {mode : Mode} (h : mode.Ends) (fields : List Bytes) (field : Bytes) (pos : ℕ)
    (hcr : mode = .unquoted → field.getLast? ≠ some 13) (rest : Bytes) :
    run mode fields field pos (10 :: rest) = .record (fields ++ [field]) (pos + 1) := by
  rcases h with rfl | rfl
  · simp [withoutCr, hcr rfl]
  · simp

theorem run_crLf {mode : Mode} (h : mode.Ends) (fields : List Bytes) (field : Bytes) (pos : ℕ)
    (rest : Bytes) : run mode fields field pos (13 :: 10 :: rest) =
      .record (fields ++ [field]) (pos + 1 + 1) := by
  rcases h with rfl | rfl
  · simp [withoutCr]
  · simp

end stretches

/-- The bytes of a field are those of its front and the one read. -/
theorem step_field (mode : Mode) (field : Bytes) (byte : UInt8) :
    match step mode field byte with
    | .go _ field' => ∀ b ∈ field', b ∈ field ∨ b = byte
    | .field field' => ∀ b ∈ field', b ∈ field
    | .record field' => ∀ b ∈ field', b ∈ field
    | .malformed _ => True := by
  have hpush : ∀ b ∈ field ++ [byte], b ∈ field ∨ b = byte := by
    intro b hb
    simpa using hb
  have hcr : ∀ b ∈ withoutCr field, b ∈ field := by
    intro b hb
    unfold withoutCr at hb
    split_ifs at hb
    · exact List.dropLast_subset _ hb
    · exact hb
  cases mode <;> simp only [step, plain] <;> split_ifs <;>
    first | exact hpush | exact hcr | exact fun _ h => h | exact fun _ h => Or.inl h | trivial

/-! ## Whole records -/

/-- A record ends behind its front, and its bytes are those read. -/
theorem run_within (rest : Bytes) : ∀ {mode : Mode} {fields : List Bytes} {field : Bytes} {pos : ℕ}
    {fields' : List Bytes} {next : ℕ}, run mode fields field pos rest = .record fields' next →
      pos < next ∧ run mode fields field pos (rest.take (next - pos)) = .record fields' next ∧
        ∀ other ∈ fields', other ∈ fields ∨
          ∀ byte ∈ other, byte ∈ field ∨ byte ∈ rest.take (next - pos) := by
  induction rest with
  | nil =>
    intro mode fields field pos fields' next h
    rw [run] at h
    split_ifs at h
  | cons byte rest ih =>
    intro mode fields field pos fields' next h
    rw [run] at h
    have htake : ∀ {next}, pos + 1 < next →
        (byte :: rest).take (next - pos) = byte :: rest.take (next - (pos + 1)) := by
      intro next hlt
      rw [show next - pos = next - (pos + 1) + 1 by omega, List.take_succ_cons]
    have hstep := step_field mode field byte
    rcases hresult : step mode field byte with ⟨mode', field'⟩ | ⟨field'⟩ | ⟨field'⟩ | reason <;>
      rw [hresult] at h hstep
    · obtain ⟨hlt, hrun, hmem⟩ := ih h
      rw [htake hlt, run, hresult]
      refine ⟨by omega, hrun, fun other hother => (hmem other hother).imp_right fun hbytes b hb => ?_⟩
      rcases hbytes b hb with hfield | hrest
      · rcases hstep b hfield with hfield | rfl
        · exact Or.inl hfield
        · exact Or.inr (List.mem_cons_self ..)
      · exact Or.inr (List.mem_cons_of_mem _ hrest)
    · obtain ⟨hlt, hrun, hmem⟩ := ih h
      rw [htake hlt, run, hresult]
      refine ⟨by omega, hrun, fun other hother => ?_⟩
      rcases hmem other hother with hfields | hbytes
      · rcases List.mem_append.1 hfields with hfields | hlast
        · exact Or.inl hfields
        · obtain rfl := List.mem_singleton.1 hlast
          refine Or.inr fun b hb => Or.inl ?_
          exact hstep b hb
      · refine Or.inr fun b hb => Or.inr ?_
        rcases hbytes b hb with hnil | hrest
        · exact absurd hnil List.not_mem_nil
        · exact List.mem_cons_of_mem _ hrest
    · obtain ⟨rfl, rfl⟩ : fields ++ [field'] = fields' ∧ pos + 1 = next := by
        simpa using h
      rw [show pos + 1 - pos = 1 by omega, List.take_succ_cons, run, hresult]
      refine ⟨by omega, rfl, fun other hother => ?_⟩
      rcases List.mem_append.1 hother with hfields | hlast
      · exact Or.inl hfields
      · obtain rfl := List.mem_singleton.1 hlast
        exact Or.inr fun b hb => Or.inl (hstep b hb)
    · cases h

/-- What comes behind a record does not matter. -/
theorem run_append (rest more : Bytes) : ∀ {mode : Mode} {fields : List Bytes} {field : Bytes} {pos : ℕ}
    {fields' : List Bytes} {next : ℕ}, run mode fields field pos rest = .record fields' next →
      run mode fields field pos (rest ++ more) = .record fields' next := by
  induction rest with
  | nil =>
    intro mode fields field pos fields' next h
    rw [run] at h
    split_ifs at h
  | cons byte rest ih =>
    intro mode fields field pos fields' next h
    rw [List.cons_append, run]
    rw [run] at h
    rcases hresult : step mode field byte with ⟨mode', field'⟩ | ⟨field'⟩ | ⟨field'⟩ | reason <;>
      rw [hresult] at h
    · exact ih h
    · exact ih h
    · exact h
    · cases h

/-- A record has the fields in front and one more at least. -/
theorem lt_length_of_run (rest : Bytes) : ∀ {mode : Mode} {fields : List Bytes} {field : Bytes} {pos : ℕ}
    {fields' : List Bytes} {next : ℕ}, run mode fields field pos rest = .record fields' next →
      fields.length < fields'.length := by
  induction rest with
  | nil =>
    intro mode fields field pos fields' next h
    rw [run] at h
    split_ifs at h
  | cons byte rest ih =>
    intro mode fields field pos fields' next h
    rw [run] at h
    rcases hresult : step mode field byte with ⟨mode', field'⟩ | ⟨field'⟩ | ⟨field'⟩ | reason <;>
      rw [hresult] at h
    · exact ih h
    · have := ih h
      rw [List.length_append] at this
      omega
    · obtain ⟨rfl, -⟩ : fields ++ [field'] = fields' ∧ pos + 1 = next := by
        simpa using h
      rw [List.length_append]
      exact Nat.lt_succ_self _
    · cases h

/-! ## Between positions -/

section leads

variable (input : Bytes)

/-- Reading from a point of a field is reading from another one. -/
def Leads (mode : Mode) (field : Bytes) (pos : ℕ) (mode' : Mode) (field' : Bytes) (pos' : ℕ) : Prop :=
  ∀ fields, run mode fields field pos (input.drop pos) = run mode' fields field' pos' (input.drop pos')

variable {input} {mode mode' mode'' : Mode} {field field' field'' : Bytes} {pos pos' pos'' : ℕ}

theorem Leads.trans (h : Leads input mode field pos mode' field' pos')
    (h' : Leads input mode' field' pos' mode'' field'' pos'') :
    Leads input mode field pos mode'' field'' pos'' :=
  fun fields => (h fields).trans (h' fields)

theorem drop_eq_cons {byte : UInt8} (h : input[pos]? = some byte) :
    input.drop pos = byte :: input.drop (pos + 1) := by
  obtain ⟨hlt, hbyte⟩ := List.getElem?_eq_some_iff.1 h
  rw [List.drop_eq_getElem_cons hlt, hbyte]

theorem drop_eq_slice {stop : ℕ} (hle : pos ≤ stop) :
    input.drop pos = slice input pos stop ++ input.drop stop := by
  conv_lhs => rw [← List.take_append_drop (stop - pos) (input.drop pos)]
  rw [slice, List.drop_take, List.drop_drop, Nat.add_sub_cancel' hle]

theorem slice_length {stop : ℕ} (hstop : stop ≤ input.length) :
    (slice input pos stop).length = stop - pos := by
  rw [slice, List.length_drop, List.length_take, Nat.min_eq_left hstop]

theorem mem_slice {stop : ℕ} {byte : UInt8} (h : byte ∈ slice input pos stop) :
    ∃ i, pos ≤ i ∧ i < stop ∧ input[i]? = some byte := by
  obtain ⟨i, hi⟩ := List.mem_iff_getElem?.1 h
  rw [slice, List.getElem?_drop, List.getElem?_take] at hi
  split_ifs at hi with hlt
  exact ⟨pos + i, Nat.le_add_right _ _, hlt, hi⟩

variable {stop : ℕ} (hle : pos ≤ stop) (hstop : stop ≤ input.length)

include hle hstop in
theorem leads_bare (h : ∀ i, pos ≤ i → i < stop → ∀ byte, input[i]? = some byte → Bare byte) :
    Leads input .unquoted field pos .unquoted (field ++ slice input pos stop) stop := by
  intro fields
  rw [drop_eq_slice hle, run_bare, slice_length hstop, Nat.add_sub_cancel' hle]
  intro byte hbyte
  obtain ⟨i, hfrom, hlt, hget⟩ := mem_slice hbyte
  exact h i hfrom hlt byte hget

include hle hstop in
theorem leads_quoted (h : ∀ i, pos ≤ i → i < stop → input[i]? ≠ some 34) :
    Leads input .quoted field pos .quoted (field ++ slice input pos stop) stop := by
  intro fields
  rw [drop_eq_slice hle, run_quoted, slice_length hstop, Nat.add_sub_cancel' hle]
  rintro byte hbyte rfl
  obtain ⟨i, hfrom, hlt, hget⟩ := mem_slice hbyte
  exact h i hfrom hlt hget

theorem leads_doubled (h : input[pos]? = some 34) (h' : input[pos + 1]? = some 34) :
    Leads input .quoted field pos .quoted (field ++ [34]) (pos + 2) := by
  intro fields
  rw [drop_eq_cons h, drop_eq_cons h', run_doubled]

theorem leads_opening (h : input[pos]? = some 34) :
    Leads input .start field pos .quoted field (pos + 1) := by
  intro fields
  rw [drop_eq_cons h, run_opening]

theorem leads_closing (h : input[pos]? = some 34) :
    Leads input .quoted field pos .closed field (pos + 1) := by
  intro fields
  rw [drop_eq_cons h, run_closing]

theorem leads_start {byte : UInt8} (h : input[pos]? = some byte) (hne : byte ≠ 34) :
    Leads input .start field pos .unquoted field pos := by
  intro fields
  rw [drop_eq_cons h, run_start hne]

end leads

end Rfc

end Coseva
