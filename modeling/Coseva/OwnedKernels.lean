/-
  Coseva — the other record kernels over owned buffers (`coseva_unsafe/src/record.rs`,
  `coseva/src/engine/record_parser.rs`).

  * `tryParseDefaultQuotedPrefix`, `tryParseDefaultInteriorPrefix`: the heads of a
    record that the kernel for plain records does not take;
  * `tryParseDefaultPlainPacked`: the AVX2 kernel for plain records;
  * `tryParseNamedDialectRecord`: the kernel of the built-in dialects;
  * `OwnedParser.run`, `PrefixParser.run`: the kernels behind the function pointers
    of an engine.
-/
import Coseva.Borrowed
import Coseva.Structural

namespace Coseva

namespace Structural

/-! ## The heads of quoted records -/

section heads

variable (checkFieldLimit : Bool) (input : Bytes)

/-- The loop of `try_parse_default_quoted_prefix`: where it stops, whether that is behind the
    record, and the storage. -/
def quotedPrefixLoop (maxFieldBytes maxFields : ℕ) :
    ℕ → ℕ → Bytes → List ℕ → Option (ℕ × Bool × Bytes × List ℕ)
  | 0, _, _, _ => none
  | fuel + 1, location, bytes, ends => do
    let first ← input[location]?
    if first ≠ 34 then return (location, false, bytes, ends)
    else
      let (bytes, at') ← quotedLoop checkFieldLimit input input.length bytes maxFieldBytes (location + 1)
      let ends ← finishField bytes ends maxFields
      let afterQuote := at' + 1
      match input[afterQuote]? with
      | some 44 => quotedPrefixLoop maxFieldBytes maxFields fuel (afterQuote + 1) bytes ends
      | some 10 => return (afterQuote + 1, true, bytes, ends)
      | some 13 =>
        if input[afterQuote + 1]? = some 10 then return (afterQuote + 2, true, bytes, ends) else none
      | _ => none

/-- The loop of `try_parse_default_interior_prefix`. -/
def interiorPrefixLoop (maxFieldBytes maxFields : ℕ) :
    ℕ → ℕ → Bytes → List ℕ → Option (ℕ × Bool × Bytes × List ℕ)
  | 0, _, _, _ => none
  | fuel + 1, location, bytes, ends => do
    let first ← input[location]?
    if first ≠ 34 then
      let offset ← find3 44 34 10 (input.drop location)
      let at' := location + offset
      let byte := byteAt input at'
      if byte = 34 then none
      else
        let fieldEnd := if byte = 10 ∧ at' > location ∧ byteAt input (at' - 1) = 13 then at' - 1 else at'
        let segment := slice input location fieldEnd
        if tooLong checkFieldLimit maxFieldBytes segment then none
        else
          let bytes := bytes ++ segment
          let ends ← finishField bytes ends maxFields
          if byte = 10 then return (at' + 1, true, bytes, ends)
          else interiorPrefixLoop maxFieldBytes maxFields fuel (at' + 1) bytes ends
    else
      let (bytes, at') ← quotedLoop checkFieldLimit input input.length bytes maxFieldBytes (location + 1)
      let ends ← finishField bytes ends maxFields
      let afterQuote := at' + 1
      match input[afterQuote]? with
      | some 44 => return (afterQuote + 1, false, bytes, ends)
      | some 10 => return (afterQuote + 1, true, bytes, ends)
      | some 13 =>
        if input[afterQuote + 1]? = some 10 then return (afterQuote + 2, true, bytes, ends) else none
      | _ => none

/-- A loop over the bytes that `max_record_bytes` leaves, on a storage. -/
def onStorage (loop : Bytes → ℕ → ℕ → Bytes → List ℕ → Option (ℕ × Bool × Bytes × List ℕ))
    (maxRecordBytes : ℕ) (output : Output) : Option ((ℕ × Bool) × Output) := do
  let input := input.take (min input.length maxRecordBytes)
  let (location, finished, bytes, ends) ← loop input (input.length + 1) 0 output.bytes output.ends
  return ((location, finished), { output with bytes, ends })

/-- `try_parse_default_quoted_prefix`. -/
def tryParseDefaultQuotedPrefix (output : Output) (maxRecordBytes maxFieldBytes maxFields : ℕ) :
    Option ((ℕ × Bool) × Output) :=
  onStorage input (fun input => quotedPrefixLoop checkFieldLimit input maxFieldBytes maxFields)
    maxRecordBytes output

/-- `try_parse_default_interior_prefix`. -/
def tryParseDefaultInteriorPrefix (output : Output) (maxRecordBytes maxFieldBytes maxFields : ℕ) :
    Option ((ℕ × Bool) × Output) :=
  onStorage input (fun input => interiorPrefixLoop checkFieldLimit input maxFieldBytes maxFields)
    maxRecordBytes output

end heads

/-! ## Plain records -/

/-- `append_packed_plain`, of a block that loses its commas and what stands from `stop` on. -/
def appendPackedPlain (block : Bytes) (commas : List ℕ) (stop : ℕ) (bytes : Bytes) (ends : List ℕ) :
    Bytes × List ℕ :=
  let kept := ((List.range stop).filter fun i => !commas.contains i).map (byteAt block)
  (bytes ++ kept, ends ++ commas.mapIdx fun removed comma => bytes.length + comma - removed)

/-- The loop of `try_parse_default_plain_packed_mode_x86`: where the next record begins, whether
    every byte loaded is ASCII, and the storage. -/
def plainPackedBlocks (input : Bytes) :
    (fuel consumed : ℕ) → Bool → Bytes → List ℕ → Option (ℕ × Bool × Bytes × List ℕ)
  | 0, _, _, _, _ => none
  | fuel + 1, consumed, ascii, bytes, ends =>
    let block := (input.drop consumed).take 32
    if block.length < 32 then none
    else
      let ascii := ascii && asciiBlock block
      let newlines := Engine.maskOf 10 block
      if (Engine.maskOf 34 block).before newlines ≠ [] then none
      else
        let commas := (Engine.maskOf 44 block).before newlines
        match newlines.head? with
        | some recordEnd =>
          -- the carriage return is looked for in this block only
          let stop :=
            if recordEnd ≠ 0 ∧ byteAt block (recordEnd - 1) = 13 then recordEnd - 1 else recordEnd
          let (bytes, ends) := appendPackedPlain block commas stop bytes ends
          some (consumed + recordEnd + 1, ascii, bytes, ends ++ [bytes.length])
        | none =>
          let (bytes, ends) := appendPackedPlain block commas 32 bytes ends
          plainPackedBlocks input fuel (consumed + 32) ascii bytes ends

/-- `try_parse_default_plain_packed` and, with `certifyAscii`, `try_parse_default_plain_packed_ascii`,
    on a machine that has the instructions or not. -/
def tryParseDefaultPlainPacked (available certifyAscii : Bool) (input : Bytes) (output : Output) :
    Option ℕ × Output :=
  if available then
    match plainPackedBlocks input Engine.maxBatchedBlocks 0 true output.bytes output.ends with
    | some (consumed, ascii, bytes, ends) =>
      (some consumed,
        { bytes, ends, textValidity := if certifyAscii && ascii then .ascii else output.textValidity })
    | none => (none, { output with bytes := [], ends := [] })
  else (none, output)

/-! ## The built-in dialects -/

section named

variable (delimiter : UInt8) (backslash checkFieldLimit : Bool) (input : Bytes)

/-- The loop over the quotes and escapes of a field: the bytes behind it, and where its closing
    quote is. -/
def namedQuotedLoop : ℕ → Bytes → ℕ → ℕ → Option (Bytes × ℕ)
  | 0, _, _, _ => none
  | fuel + 1, bytes, rawBytes, cursor => do
    let remaining := input.drop cursor
    let offset ← if backslash then find2 34 92 remaining else find1 34 remaining
    let at' := cursor + offset
    let segment := slice input cursor at'
    let limit := Limits.default.maxFieldBytes
    if checkFieldLimit && decide (segment.length > limit - rawBytes) then none
    else
      let bytes := bytes ++ segment
      let rawBytes := if checkFieldLimit then rawBytes + segment.length else rawBytes
      if backslash && byteAt input at' == 92 then
        let escaped ← input[at' + 1]?
        if escaped ≠ 34 ∧ escaped ≠ 92 then none
        else if checkFieldLimit && decide (rawBytes > limit - 2) then none
        else
          namedQuotedLoop fuel (bytes ++ [escaped])
            (if checkFieldLimit then rawBytes + 2 else rawBytes) (at' + 2)
      else if !backslash && input[at' + 1]? == some 34 then
        if checkFieldLimit && decide (rawBytes > limit - 2) then none
        else
          namedQuotedLoop fuel (bytes ++ [34]) (if checkFieldLimit then rawBytes + 2 else rawBytes)
            (at' + 2)
      else return (bytes, at')

/-- The loop of `try_parse_named_dialect_record_runtime`. -/
def namedRecordLoop : ℕ → ℕ → Bytes → List ℕ → Option (ℕ × Bytes × List ℕ)
  | 0, _, _, _ => none
  | fuel + 1, location, bytes, ends => do
    let first ← input[location]?
    if first = 34 then
      let (bytes, at') ← namedQuotedLoop backslash checkFieldLimit input (input.length + 1) bytes 0
        (location + 1)
      let ends ← finishField bytes ends Limits.default.maxFields
      let afterQuote := at' + 1
      let next ← input[afterQuote]?
      if next = delimiter then namedRecordLoop fuel (afterQuote + 1) bytes ends
      else if next = 10 then return (afterQuote + 1, bytes, ends)
      else if next = 13 ∧ input[afterQuote + 1]? = some 10 then return (afterQuote + 2, bytes, ends)
      else none
    else
      let offset ← find3 delimiter 34 10 (input.drop location)
      let at' := location + offset
      let byte := byteAt input at'
      if byte = 34 then none
      else
        let fieldEnd := if byte = 10 ∧ at' > location ∧ byteAt input (at' - 1) = 13 then at' - 1 else at'
        let segment := slice input location fieldEnd
        if checkFieldLimit && decide (segment.length > Limits.default.maxFieldBytes) then none
        else
          let bytes := bytes ++ segment
          let ends ← finishField bytes ends Limits.default.maxFields
          if byte = 10 then return (at' + 1, bytes, ends)
          else namedRecordLoop fuel (at' + 1) bytes ends

/-- `try_parse_named_dialect_record`. -/
def tryParseNamedDialectRecord (output : Output) : Option (ℕ × Output) := do
  let input := input.take (min input.length Limits.default.maxRecordBytes)
  let (location, bytes, ends) ← namedRecordLoop delimiter backslash checkFieldLimit input
    (input.length + 1) 0 output.bytes output.ends
  return (location, { output with bytes, ends })

end named

end Structural

/-! ## Behind the function pointers -/

/-- `try_parse_default_record`, with the limits it is called with. -/
def tryParseDefaultRecord (checkFieldLimit : Bool) (input : Bytes) (output : Structural.Output) :
    Option (ℕ × Structural.Output) :=
  Structural.tryParseDefaultRecord checkFieldLimit input output Limits.default.maxRecordBytes
    Limits.default.maxFieldBytes Limits.default.maxFields

/-- `window_needs_field_limit`. -/
def windowNeedsFieldLimit (input : Bytes) : Bool := decide (input.length > Limits.default.maxFieldBytes)

/-- Whether run-time detection finds AVX2. -/
def Host.structural (host : Host) : Bool := host.x86_64 && host.avx2

/-- `default_plain_packed_available`. -/
def Host.packed (host : Host) : Bool := host.x86_64 && host.avx2 && host.bmi2

/-- The call of a `SliceOwnedParser`. -/
def OwnedParser.run (input : Bytes) (output : Structural.Output) :
    OwnedParser → Option (ℕ × Structural.Output)
  | .default checkFieldLimit => tryParseDefaultRecord checkFieldLimit input output
  | .defaultWindowed => tryParseDefaultRecord (windowNeedsFieldLimit input) input output
  | .named delimiter backslash checkFieldLimit =>
    Structural.tryParseNamedDialectRecord delimiter backslash checkFieldLimit input output

/-- `try_parse_default_quoted_record_structural_appending`. -/
def tryParseDefaultStructuralAppending (host : Host) (checkFieldLimit : Bool) (input : Bytes)
    (output : Structural.Output) : Except Structural.Stop ((ℕ × Bool) × Structural.Output) :=
  match Structural.tryParseDefaultQuotedRecordStructural host.structural checkFieldLimit true false input
      output input.length with
  | (.ok parsed, output) => .ok (parsed, output)
  | (.error .panicked, _) => .error .panicked
  | (.error .declined, _) =>
    match tryParseDefaultRecord checkFieldLimit input output with
    | some (consumed, output) => .ok ((consumed, true), output)
    | none => .error .declined

/-- `try_parse_default_quoted_prefix`, with the limits it is called with. -/
def tryParseDefaultQuotedPrefix (checkFieldLimit : Bool) (input : Bytes) (output : Structural.Output) :
    Except Structural.Stop ((ℕ × Bool) × Structural.Output) :=
  (Structural.tryParseDefaultQuotedPrefix checkFieldLimit input output Limits.default.maxRecordBytes
    Limits.default.maxFieldBytes Limits.default.maxFields).elim (.error .declined) .ok

/-- `try_parse_default_interior_prefix`, with the limits it is called with. -/
def tryParseDefaultInteriorPrefix (checkFieldLimit : Bool) (input : Bytes) (output : Structural.Output) :
    Except Structural.Stop ((ℕ × Bool) × Structural.Output) :=
  (Structural.tryParseDefaultInteriorPrefix checkFieldLimit input output Limits.default.maxRecordBytes
    Limits.default.maxFieldBytes Limits.default.maxFields).elim (.error .declined) .ok

/-- The call of a `SliceQuotedPrefixParser` or a `SliceInteriorPrefixParser`. -/
def PrefixParser.run (host : Host) (input : Bytes) (output : Structural.Output) :
    PrefixParser → Except Structural.Stop ((ℕ × Bool) × Structural.Output)
  | .quoted checkFieldLimit => tryParseDefaultQuotedPrefix checkFieldLimit input output
  | .interior checkFieldLimit => tryParseDefaultInteriorPrefix checkFieldLimit input output
  | .interiorWindowed => tryParseDefaultInteriorPrefix (windowNeedsFieldLimit input) input output
  | .structural checkFieldLimit => tryParseDefaultStructuralAppending host checkFieldLimit input output
  | .structuralWindowed =>
    tryParseDefaultStructuralAppending host (windowNeedsFieldLimit input) input output

/-- `try_parse_default_interior_record_structural_ascii`. -/
def tryParseDefaultInteriorAscii (host : Host) (input : Bytes) (output : Structural.Output) :
    Except Structural.Stop (ℕ × Bool) × Structural.Output :=
  Structural.tryParseDefaultQuotedRecordStructural host.structural (windowNeedsFieldLimit input) false true
    input output input.length

end Coseva
