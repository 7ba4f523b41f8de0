/-
  Coseva — what the prescan decides about a record
  (`coseva/src/engine/cursor.rs`).

  * `windowRecord`: where the full parse ends a record, if later bytes are not
    waited for;
  * `delivered`: the prescan in front of the full parse;
  * `contradicted`: the prescan waits for a delimiter that the window rules out;
  * `prescan_decides`: **the two together**, for every window.
-/
import Coseva.FrameGrow
import Coseva.FrameKernel

namespace Coseva

namespace Engine

open Run WindowScanConfig
open Coseva.Frame

section window

variable (cfg : ParserSettings) (F : CsvFormat) (w : Bytes) (header : Bool) (e : Engine)

/-- The end of the record at the cursor, where a full parse of the window finds
    it and `window_settled` does not ask for more input. -/
def windowRecord : Option ℕ :=
  match parsePositionedRecord cfg F w header e with
  | .ok (_, stop, _) e' => if windowSettled w e' then some stop else none
  | .error _ _ => none

/-- `window_lacks_record`, from a fresh checkpoint at the cursor. -/
def windowLacksRecord (hvalid : cfg.dialect.invalidity = none) : Bool × ResumeState :=
  (cfg.windowScanConfig F hvalid).windowLacksRecordRuntime w (.fresh e.location)

/-- `try_advance_window`: the record that a window which may go on delivers. -/
def delivered (hvalid : cfg.dialect.invalidity = none) : Option ℕ :=
  if (windowLacksRecord cfg F w e hvalid).1 then none else windowRecord cfg F w header e

end window

/-- The scan waits for the tail of a delimiter, and the bytes of the window
    behind the delimiter's first byte are no part of that tail. -/
def contradicted (config : WindowScanConfig) (w : Bytes) (resume : ResumeState) : Bool :=
  let at' := config.delimiterAt w resume.point
  decide (at' < w.length) && byteAt w at' == config.delimiter &&
    !(w.drop (at' + 1)).isPrefixOf config.delimiterTail.asSlice

section record

variable {cfg : ParserSettings} {F : CsvFormat} {w : Bytes} {header : Bool} {e : Engine} {stop : ℕ}
  (hs : cfg.dialect.Sound) (hF : cfg.Follows F) (hspace : cfg.SpacesPlain)
  (hkernel : KernelSound cfg F) {check : Bool} (howned : e.ownedParser = ownedParserFor cfg check)
  (hin : e.location ≤ w.length)

include hs hF hspace hkernel howned hin

/-- **A record that is settled** ends where the frame of the window does. -/
theorem windowRecord_stops (h : windowRecord cfg F w header e = some stop) :
    Stops cfg w e.location ⟨e.location, e.location, false⟩ stop ∧ stop ≤ w.length := by
  unfold windowRecord at h
  rcases hrun : parsePositionedRecord cfg F w header e with ⟨⟨first, last, index⟩, e'⟩ | ⟨fault, e'⟩ <;>
    rw [hrun] at h
  swap
  · cases h
  simp only at h
  split_ifs at h with hsettled
  obtain rfl := Option.some.inj h
  have hmoves := parsePositionedRecord_moves hs hF header hin
  rw [hrun] at hmoves
  obtain ⟨-, hlast, hpassed, hshort⟩ := hmoves
  refine ⟨?_, hlast.le.trans hpassed.inside⟩
  unfold parsePositionedRecord at hrun
  obtain ⟨_, e₁, hbegin, hrun⟩ := ok_of_bind hrun
  unfold beginSpans at hbegin
  rw [if_neg (Nat.not_lt_of_le hshort)] at hbegin
  cases hbegin
  rw [get_bind] at hrun
  obtain ⟨_, e₂, hparse, hrun⟩ := ok_of_bind hrun
  obtain ⟨_, e₃, htrim, hrun⟩ := ok_of_bind hrun
  rw [get_bind, set_bind] at hrun
  cases hrun
  have hparse' := ok_of_failing hparse
  have hstops := parseRecord_stops hs hF hspace hkernel (e := { e with spans := .empty }) howned
    header hin
  rw [hparse'] at hstops
  have hsame : e₃.location = e₂.location ∧ e₃.terminated = e₂.terminated := by
    unfold trimSpans at htrim
    split_ifs at htrim <;> cases htrim <;> exact ⟨rfl, rfl⟩
  rw [hsame.1]
  refine hstops (windowSettled_iff.mpr ?_)
  rcases windowSettled_iff.mp hsettled with hlt | hterminated
  · exact Or.inl (hsame.1 ▸ hlt)
  · exact Or.inr (hsame.2 ▸ hterminated)

omit hF hspace hkernel howned in
/-- A scan that lacks a record waits for bytes behind which no record ends in
    the window, unless the window contradicts them. -/
theorem lacks_waits (hF : cfg.Follows F) (hvalid : cfg.dialect.invalidity = none)
    (hlacks : (windowLacksRecord cfg F w e hvalid).1 = true)
    (hcontradicted : contradicted (cfg.windowScanConfig F hvalid) w
      (windowLacksRecord cfg F w e hvalid).2 = false) :
    ∃ more, more.length ≤ Tail.max ∧ ∀ stop ≤ w.length,
      ¬ Stops cfg (w ++ more) e.location ⟨e.location, e.location, false⟩ stop := by
  have hm := hF.mirrors hvalid
  generalize hconfig : cfg.windowScanConfig F hvalid = config at *
  unfold windowLacksRecord windowLacksRecordRuntime at hlacks hcontradicted
  rw [hconfig] at hlacks hcontradicted
  simp only [ResumeState.fresh] at hlacks hcontradicted
  rcases hscan : config.scanLoop w e.location (w.length + 1) ⟨e.location, e.location, false⟩ with
    _ | c <;> rw [hscan] at hlacks hcontradicted
  · cases hlacks
  have hwithin : config.Within w e.location ⟨e.location, e.location, false⟩ :=
    (ResumeState.settled_fresh config hin).within
  have hrefuted : ∀ more stop, stop ≤ w.length →
      Stops cfg (w ++ more) e.location ⟨e.location, e.location, false⟩ stop →
      config.Refuted w (w ++ more) c := fun more stop hle hstops =>
    scanFrom_stops hm hs (List.prefix_append w more) hstops hwithin hscan hle
  have hpoint : contradicted config w ⟨some e.location, c.cursor, c.fieldStart, c.inQuotes, false⟩ =
      (decide (config.delimiterAt w c < w.length) &&
        byteAt w (config.delimiterAt w c) == config.delimiter &&
        !(w.drop (config.delimiterAt w c + 1)).isPrefixOf config.delimiterTail.asSlice) := rfl
  simp only [hpoint] at hcontradicted
  by_cases hlead : config.delimiterAt w c < w.length ∧
      byteAt w (config.delimiterAt w c) = config.delimiter
  · -- the rest of the tail makes the delimiter whole
    have htail : w.drop (config.delimiterAt w c + 1) <+: config.delimiterTail.asSlice := by
      rw [← List.isPrefixOf_iff_prefix]
      simpa [hlead.1, hlead.2] using hcontradicted
    obtain ⟨more, hmore⟩ := htail
    refine ⟨more, ?_, fun stop hle hstops => ?_⟩
    · have hlength := congrArg List.length hmore
      have hmax := config.delimiterTail.bytes_le
      rw [List.length_append, Tail.asSlice, config.delimiterTail_usable,
        if_neg Bool.false_ne_true] at hlength
      omega
    · have hconfirms := (hrefuted more stop hle hstops).2.2
      rw [List.drop_append_of_le_length hlead.1, hmore, Tail.confirms,
        List.isPrefixOf_iff_prefix.mpr (List.prefix_refl _)] at hconfirms
      cases hconfirms
  · exact ⟨[], Nat.zero_le _, fun stop hle hstops =>
      hlead ⟨(hrefuted [] stop hle hstops).1, (hrefuted [] stop hle hstops).2.1⟩⟩

end record

/-- **What the prescan decides.**  A window it holds back can go on so that no
    record ends in it, unless the scan waits for a delimiter that the window
    contradicts; so a settled record that every continuation leaves in place is
    delivered.  A settled record ends at the same byte in every longer window,
    unless the window ends in a delimiter of the record. -/
theorem prescan_decides (cfg : ParserSettings) (F : CsvFormat) (w : Bytes) (header : Bool)
    (e : Engine) (check : Bool) (hvalid : cfg.dialect.invalidity = none) (hF : cfg.Follows F)
    (hspace : cfg.SpacesPlain) (hkernel : KernelSound cfg F)
    (howned : e.ownedParser = ownedParserFor cfg check) (hin : e.location ≤ w.length) :
    ((windowLacksRecord cfg F w e hvalid).1 = true →
      contradicted (cfg.windowScanConfig F hvalid) w (windowLacksRecord cfg F w e hvalid).2 = false →
      ∃ more, more.length ≤ Tail.max ∧ ∀ stop ≤ w.length,
        ¬ Stops cfg (w ++ more) e.location ⟨e.location, e.location, false⟩ stop ∧
          windowRecord cfg F (w ++ more) header e ≠ some stop) ∧
    (∀ stop, windowRecord cfg F w header e = some stop →
      (∀ more, more.length ≤ Tail.max →
        Stops cfg (w ++ more) e.location ⟨e.location, e.location, false⟩ stop) →
      contradicted (cfg.windowScanConfig F hvalid) w (windowLacksRecord cfg F w e hvalid).2 = false →
      delivered cfg F w header e hvalid = some stop) ∧
    (∀ stop, windowRecord cfg F w header e = some stop →
      Whole cfg.dialect w e.location stop → ∀ more,
        Stops cfg (w ++ more) e.location ⟨e.location, e.location, false⟩ stop ∧
          ∀ stop', windowRecord cfg F (w ++ more) header e = some stop' → stop' = stop) := by
  have hs := Dialect.sound_of_valid hvalid
  have hstops : ∀ {more : Bytes} {stop : ℕ}, windowRecord cfg F (w ++ more) header e = some stop →
      Stops cfg (w ++ more) e.location ⟨e.location, e.location, false⟩ stop := fun h =>
    (windowRecord_stops hs hF hspace hkernel howned (by rw [List.length_append]; omega) h).1
  refine ⟨?_, ?_, ?_⟩
  · intro hlacks hcontradicted
    obtain ⟨more, hshort, hmore⟩ := lacks_waits hs hin hF hvalid hlacks hcontradicted
    exact ⟨more, hshort, fun stop hle => ⟨hmore stop hle, fun h => hmore stop hle (hstops h)⟩⟩
  · intro stop hrecord hfixed hcontradicted
    have hle := (windowRecord_stops hs hF hspace hkernel howned hin hrecord).2
    unfold delivered
    rw [if_neg, hrecord]
    intro hlacks
    obtain ⟨more, hshort, hmore⟩ := lacks_waits hs hin hF hvalid hlacks hcontradicted
    exact hmore stop hle (hfixed more hshort)
  · intro stop hrecord hwhole more
    obtain ⟨hends, hle⟩ := windowRecord_stops hs hF hspace hkernel howned hin hrecord
    have hgrown := hends.grown (List.prefix_append w more) hs hwhole hle (Nat.le_refl _)
    exact ⟨hgrown, fun stop' h => (hstops h).unique hgrown⟩

/-- CSV with separators of its own. -/
def separated (delimiter ending : Bytes) (escape : Escape) (skipInitialSpace : Bool) :
    ParserSettings where
  dialect :=
    { Dialect.csv with
      delimiter := delimiter.headD 44
      recordEnding := .ofByte (ending.headD 10)
      escape := escape
      delimiterTail := .of delimiter
      endingTail := .of ending }
  skipInitialSpace := skipInitialSpace
  limits := .default
  fieldCount := .flexible
  headers := .none
  host := ⟨true, true, true⟩

/-- The delimiter `;bc`. -/
def semicolons : ParserSettings := separated [59, 98, 99] [10] .doubleQuote false

/-- The window `a;b` is held back until the delimiter `;bc` is whole.  The record
    of `a;c` and a line feed is delivered, and ends there however the document
    goes on. -/
theorem prescan_decides_semicolons :
    (∃ more, more.length ≤ Tail.max ∧ ∀ stop ≤ 3,
      ¬ Stops semicolons ([97, 59, 98] ++ more) 0 ⟨0, 0, false⟩ stop ∧
        windowRecord semicolons none ([97, 59, 98] ++ more) false (.fromConfig semicolons []) ≠
          some stop) ∧
    ∀ more, Stops semicolons ([97, 59, 99, 10] ++ more) 0 ⟨0, 0, false⟩ 4 :=
  ⟨(prescan_decides semicolons none [97, 59, 98] false (.fromConfig semicolons []) false (by decide)
      (ParserSettings.follows_none _) (by decide) (kernelSound_none _) rfl (by decide)).1
      (by decide) (by decide +kernel),
    fun more => ((prescan_decides semicolons none [97, 59, 99, 10] false
      (.fromConfig semicolons []) false (by decide) (ParserSettings.follows_none _) (by decide)
      (kernelSound_none _) rfl (by decide)).2.2 4 (by decide) (by decide) more).1⟩

/-- What the scan and the full parse say of a window from its first byte. -/
def verdicts (cfg : ParserSettings) (F : CsvFormat) (hvalid : cfg.dialect.invalidity = none)
    (w : Bytes) : Bool × Option ℕ :=
  ((windowLacksRecord cfg F w (.fromConfig cfg []) hvalid).1,
    windowRecord cfg F w false (.fromConfig cfg []))

/-- Behind a closing quote and a carriage return no record has ended, and the
    scan leaves that to the full parse.  The others are the exceptions: the
    delimiter `;bc` in front of a line feed, an escape byte among the spaces that
    are skipped, a static format whose records end in a line feed and an `x`, and
    a window that ends in the delimiter made of a semicolon and that ending. -/
theorem prescan_defers :
    verdicts (separated [44] [10] .doubleQuote false) none (by decide) [34, 97, 34, 13] =
        (false, none) ∧
      verdicts semicolons none (by decide) [97, 59, 10] = (true, some 3) ∧
      verdicts (separated [44] [10] (.unquoted 32) true) none (by decide) [44, 32, 10] =
        (true, some 3) ∧
      verdicts (separated [44] [10, 120] .doubleQuote false)
          (some (separated [44] [10, 120] .doubleQuote false).toFormatOptions) (by decide)
          [97, 10, 98] = (true, some 2) ∧
      (verdicts (separated [59, 10, 120] [10] .doubleQuote false) none (by decide)
          [97, 59, 10]).2 = some 3 ∧
      (verdicts (separated [59, 10, 120] [10] .doubleQuote false) none (by decide)
          ([97, 59, 10] ++ [120, 10])).2 = some 5 := by
  decide

end Engine

end Coseva
