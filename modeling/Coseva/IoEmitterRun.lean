/-
  Coseva — an output stream loses no byte and repeats none.

  * `writeConfirmed_spec`: what a write loop has confirmed is a prefix of its buffer;
  * `PushEmitter.apply_behind`: the core does not see the bytes that have left it;
  * `IoEmitter.Balanced`: the sink's bytes and the buffer are a push emitter's output;
  * `Session.step_balanced`, `Session.run_balanced`: every call keeps the balance,
    whatever the sink does;
  * `Session.run_exact`: the output of a run;
  * `Session.run_settles`: a run returns unless its sink retries forever.
-/
import Coseva.IoEmitter
import Coseva.Lib.Settles

namespace Coseva

/-! ## The write loop -/

/-- **A write loop** confirms a prefix of its buffer, and all of it if it
    succeeds. -/
theorem writeConfirmed_spec {σ E : Type} {sink : Sink σ E} {buffer : Bytes} {fuel written : ℕ}
    {output output' : Output σ} {result : Except (ℕ × IoFailure E) Unit}
    (hwritten : written ≤ buffer.length)
    (h : writeConfirmed sink buffer fuel written output = some (result, output')) :
    (result = .ok () → output'.confirmed = output.confirmed ++ buffer.drop written) ∧
      ∀ count failure, result = .error (count, failure) →
        output'.confirmed ++ buffer.drop count = output.confirmed ++ buffer.drop written := by
  induction fuel generalizing written output with
  | zero => cases h
  | succ fuel ih =>
    rw [writeConfirmed] at h
    by_cases hlt : written < buffer.length
    · rw [if_pos hlt] at h
      simp only at h
      have hle := sink.write_le output.sink (buffer.drop written)
      rcases hwrite : sink.write output.sink (buffer.drop written) with ⟨answer, state⟩
      rw [hwrite] at h hle
      rcases answer with count | _ | e
      · rcases count with _ | count
        · cases h
          exact ⟨nofun, by rintro _ _ ⟨⟩; rfl⟩
        · have hcount := hle _ rfl
          rw [List.length_drop] at hcount
          have hrest := ih (by omega) h
          have hsplit : (buffer.drop written).take (count + 1) ++ buffer.drop (written + (count + 1)) =
              buffer.drop written := by
            rw [← List.drop_drop, List.take_append_drop]
          simpa only [List.append_assoc, hsplit] using hrest
      · have hrest := ih hwritten h
        exact hrest
      · cases h
        exact ⟨nofun, by rintro _ _ ⟨⟩; rfl⟩
    · rw [if_neg hlt] at h
      cases h
      refine ⟨fun _ => ?_, nofun⟩
      rw [List.drop_eq_nil_of_le (Nat.le_of_not_lt hlt), List.append_nil]

/-! ## A core whose first bytes have left -/

namespace PushEmitter

variable (F : CsvFormat)

/-- The emitter that still has the bytes that have left it. -/
def behind (s : PushEmitter) (front : Bytes) : PushEmitter := { s with buffer := front ++ s.buffer }

theorem started_document {s s' : PushEmitter} (h : s'.document = s.document) :
    s'.started = s.started ∧ s'.buffer = s.buffer :=
  ⟨(congrArg PushEmitter.started h :), (congrArg PushEmitter.buffer h :)⟩

theorem document_behind {s s' : PushEmitter} (h : s'.document = s.document) (front : Bytes) :
    (s'.behind front).document = (s.behind front).document := by
  obtain ⟨buffer, d, q, b, n, policy, expected, started, hs, hd, sc, bs⟩ := s
  obtain ⟨buffer', d', q', b', n', policy', expected', started', hs', hd', sc', bs'⟩ := s'
  simp only [document, PushEmitter.mk.injEq, and_true] at h
  obtain ⟨rfl, rfl, rfl, rfl, rfl, rfl, rfl, rfl, rfl⟩ := h
  rfl

/-- **The core does not see the bytes that have left it**, once the document is
    opened. -/
theorem apply_behind (s : PushEmitter) {front : Bytes} (hfront : s.started = false → front = [])
    {op : IoOp} {record : Op} (hop : op.op = some record) :
    ((s.behind front).apply F record).1 = (s.apply F record).1 ∧
      ((s.behind front).apply F record).2.document =
        ((s.apply F record).2.behind front).document := by
  have hdraft : (s.behind front).draft F record = s.draft F record ∧
      (s.behind front).headersAfter record = s.headersAfter record := by
    cases op <;> cases hop <;> exact ⟨rfl, rfl⟩
  obtain ⟨h1, h2⟩ := s.apply_eq F record
  obtain ⟨h1', h2'⟩ := (s.behind front).apply_eq F record
  rw [h1, h1', h2', document_behind h2 front, hdraft.1, hdraft.2]
  rcases s.draft F record with e | _ | ⟨count, text⟩
  · exact ⟨rfl, rfl⟩
  · exact ⟨rfl, rfl⟩
  · simp only [settleDraft, behind]
    rcases validateFieldCount s.fieldCount s.expectedFields count with ⟨e | _, expected⟩
    · exact ⟨rfl, rfl⟩
    · refine ⟨rfl, ?_⟩
      simp only [commit]
      rcases hstarted : s.started with _ | _
      · rw [hfront hstarted]
        rfl
      · simp only [if_true, List.append_assoc]

/-- An operation that commits opens the document; one that does not leaves it. -/
theorem apply_started (s : PushEmitter) (op : Op) :
    if s.commits F op then (s.apply F op).2.started = true
    else (s.apply F op).2.document = s.document := by
  rcases hc : s.commits F op with _ | _
  · rw [if_neg Bool.false_ne_true]
    exact s.apply_refused F op hc
  · rw [if_pos rfl]
    obtain ⟨h1, h2⟩ := s.apply_eq F op
    rw [(started_document h2).1]
    rw [commits, h1] at hc
    rcases hd : s.draft F op with e | _ | ⟨count, text⟩ <;> rw [hd] at hc
    · simp [settleDraft] at hc
    · simp [settleDraft] at hc
    · simp only [settleDraft] at hc ⊢
      rcases hv : validateFieldCount s.fieldCount s.expectedFields count with ⟨e | _, expected⟩ <;>
        rw [hv] at hc
      · simp at hc
      · simp only [commit]
        split <;> rename_i hstarted
        · exact hstarted
        · rfl

end PushEmitter

/-! ## The balance -/

namespace IoEmitter

variable {σ E : Type} {sink : Sink σ E} {fuel : ℕ} {F : CsvFormat}

/-- The bytes that the sink has confirmed and those that await a write are the
    output of `whole`, an emitter that has kept them all. -/
structure Balanced (whole : PushEmitter) (s : IoEmitter σ) (output : Output σ) : Prop where
  sink : s.output = some output
  document : whole.document = (s.core.behind output.confirmed).document
  unopened : s.core.started = false → output.confirmed = [] ∧ s.core.buffer = []

theorem Balanced.buffer {whole : PushEmitter} {s : IoEmitter σ} {output : Output σ}
    (h : s.Balanced whole output) : output.confirmed ++ s.pending = whole.buffer :=
  ((PushEmitter.started_document h.document).2 : whole.buffer = _).symm

/-- A call returns to a balanced emitter; after an I/O error it has failed. -/
def Returns (whole : PushEmitter) (result : Except (IoError E) Unit) (s : IoEmitter σ) : Prop :=
  (∃ output, s.Balanced whole output) ∧ ∀ failure, result = .error (.io failure) → s.failed = true

theorem drain_returns {whole : PushEmitter} {s s' : IoEmitter σ} {output : Output σ}
    {result : Except (IoError E) Unit} (h : s.Balanced whole output)
    (hdrain : s.drain sink fuel = some (result, s')) :
    s'.Returns whole result ∧ (result = .ok () → s'.pending = []) := by
  rw [drain, h.sink] at hdrain
  simp only at hdrain
  by_cases hempty : s.core.buffer.isEmpty = true
  · rw [if_pos hempty] at hdrain
    cases hdrain
    exact ⟨⟨⟨output, h⟩, fun _ hfailure => (by cases hfailure)⟩, fun _ => List.isEmpty_iff.mp hempty⟩
  · rw [if_neg hempty] at hdrain
    have hopen : s.core.started = true := by
      by_contra hclosed
      exact hempty (List.isEmpty_iff.mpr (h.unopened (by simpa using hclosed)).2)
    obtain ⟨⟨written, output'⟩, hwrite, hresult⟩ := Option.map_eq_some_iff.mp hdrain
    obtain ⟨hall, hpart⟩ := writeConfirmed_spec (Nat.zero_le _) hwrite
    have hdocument := h.document
    rcases written with ⟨count, failure⟩ | _ <;> cases hresult
    · refine ⟨⟨⟨output', rfl, ?_, fun hclosed => ?_⟩, fun _ _ => rfl⟩, fun hok => (by cases hok)⟩
      · rw [hdocument]
        simp only [PushEmitter.document, PushEmitter.behind]
        rw [hpart _ _ rfl, List.drop_zero]
      · exact absurd (hclosed.symm.trans hopen) Bool.false_ne_true
    · refine ⟨⟨⟨output', rfl, ?_, fun hclosed => ?_⟩, fun _ hfailure => (by cases hfailure)⟩,
        fun _ => rfl⟩
      · rw [hdocument]
        simp only [PushEmitter.document, PushEmitter.behind]
        rw [hall rfl, List.drop_zero, List.append_nil]
      · exact absurd (hclosed.symm.trans hopen) Bool.false_ne_true

theorem commit_returns {whole : PushEmitter} {s s' : IoEmitter σ} {output : Output σ}
    {result : Except (IoError E) Unit} (h : s.Balanced whole output)
    (hcommit : s.commit sink fuel = some (result, s')) : s'.Returns whole result := by
  rw [commit] at hcommit
  split_ifs at hcommit
  · exact (drain_returns h hcommit).1
  · cases hcommit
    exact ⟨⟨output, h⟩, nofun⟩

/-- The emitter whose core has answered an operation. -/
theorem Balanced.core {whole : PushEmitter} {s : IoEmitter σ} {output : Output σ}
    (h : s.Balanced whole output) {op : IoOp} {record : Op} (hop : op.op = some record) :
    ({ s with core := (s.core.apply F record).2 } : IoEmitter σ).Balanced
      (whole.run F (if s.core.commits F record then [record] else [])) output := by
  have hfront : s.core.started = false → output.confirmed = [] := fun hc => (h.unopened hc).1
  obtain ⟨hsame, hbehind⟩ := s.core.apply_behind F hfront hop
  have happly := PushEmitter.apply_document F h.document record
  have hstarted := s.core.apply_started F record
  refine ⟨h.sink, ?_, ?_⟩ <;> rcases hc : s.core.commits F record with _ | _ <;>
    rw [hc] at hstarted
  · rw [if_neg Bool.false_ne_true] at hstarted ⊢
    rw [PushEmitter.run, List.foldl_nil, h.document]
    exact (PushEmitter.document_behind hstarted _).symm
  · exact happly.2.trans hbehind
  · rw [if_neg Bool.false_ne_true] at hstarted
    obtain ⟨hsame, hbuffer⟩ := PushEmitter.started_document hstarted
    simp only
    rw [hsame, hbuffer]
    exact h.unopened
  · rw [if_pos rfl] at hstarted
    exact fun hclosed => absurd (hclosed.symm.trans hstarted) Bool.false_ne_true

/-- **A record's call** returns balanced with the record, if the core has
    accepted it. -/
theorem accept_returns {whole : PushEmitter} {s s' : IoEmitter σ} {output : Output σ}
    {result : Except (IoError E) Unit} (h : s.Balanced whole output) (op : IoOp) {record : Op}
    (hop : op.op = some record) {write : PushEmitter → Except EmitError Unit × PushEmitter}
    (hwrite : s.core.apply F record = PushEmitter.apply.committed (write s.core))
    (haccept : s.accept sink fuel write = some (result, s')) :
    s'.Returns (whole.run F
      (if s.failed = false ∧ s.core.commits F record then [record] else [])) result := by
  obtain ⟨core, sink', threshold, previousDrain, failed⟩ := s
  rw [accept] at haccept
  rcases failed with _ | _
  · rw [if_neg Bool.false_ne_true] at haccept
    have hcore := h.core (F := F) hop
    simp only [true_and] at hwrite hcore haccept ⊢
    rw [hwrite] at hcore
    rcases hw : write core with ⟨e | _, core'⟩ <;> rw [hw] at haccept hcore
    · cases haccept
      exact ⟨⟨output, hcore⟩, nofun⟩
    · exact commit_returns hcore haccept
  · rw [if_pos rfl] at haccept
    cases haccept
    rw [if_neg (by simp)]
    exact ⟨⟨output, h⟩, nofun⟩

/-- A balance is kept by what does not touch the document. -/
theorem Balanced.congr {whole whole' : PushEmitter} {s s' : IoEmitter σ} {output : Output σ}
    (h : s.Balanced whole output) (hwhole : whole'.document = whole.document)
    (hsink : s'.output = s.output) (hcore : s'.core.document = s.core.document) :
    s'.Balanced whole' output := by
  obtain ⟨hstarted, hbuffer⟩ := PushEmitter.started_document hcore
  refine ⟨hsink.trans h.sink, ?_, ?_⟩
  · rw [hwhole, h.document]
    exact (PushEmitter.document_behind hcore _).symm
  · rw [hstarted, hbuffer]
    exact h.unopened

variable (F) in
/-- A guard that is finished writes its fields as one record. -/
theorem buildRecord_document {core core' : PushEmitter} (h : core'.document = core.document)
    (fields : List (Option Bytes)) :
    (core'.apply F (.emitByteRecord (.ofFields fields))).1 =
        (core.apply F (.buildRecord fields)).1 ∧
      (core'.apply F (.emitByteRecord (.ofFields fields))).2.document =
        (core.apply F (.buildRecord fields)).2.document := by
  obtain ⟨h1, h2⟩ := core.apply_eq F (.buildRecord fields)
  obtain ⟨h1', h2'⟩ := core.apply_eq F (.emitByteRecord (.ofFields fields))
  obtain ⟨hsame, hdocument⟩ := PushEmitter.apply_document F h (.emitByteRecord (.ofFields fields))
  have hdraft : core.draft F (.emitByteRecord (.ofFields fields)) =
      core.draft F (.buildRecord fields) := by
    simp only [PushEmitter.draft, PushEmitter.ofFields_fields]
  rw [hsame, hdocument, h1, h2, h1', h2', hdraft]
  exact ⟨rfl, rfl⟩

theorem buildRecord_returns {whole : PushEmitter} {s s' : IoEmitter σ} {output : Output σ}
    {result : Except (IoError E) Unit} (h : s.Balanced whole output)
    {fields : List (Option Bytes)}
    (hbuild : s.buildRecord sink fuel F fields = some (result, s')) :
    s'.Returns (whole.run F
      (if s.failed = false ∧ s.core.commits F (.buildRecord fields) then [.buildRecord fields]
        else [])) result := by
  obtain ⟨⟨result', s''⟩, hemit, hresult⟩ := Option.map_eq_some_iff.mp hbuild
  cases hresult
  have hcleared : ({ s with core := { s.core with builderScratch := .empty } } :
      IoEmitter σ).Balanced whole output := h.congr rfl rfl rfl
  obtain ⟨⟨output', hbalanced⟩, hfailed⟩ := accept_returns hcleared
    (.emitByteRecord (.ofFields fields)) (F := F) rfl rfl hemit
  refine ⟨⟨output', hbalanced.congr ?_ rfl rfl⟩, hfailed⟩
  have hcommits : PushEmitter.commits F { s.core with builderScratch := .empty }
      (.emitByteRecord (.ofFields fields)) = s.core.commits F (.buildRecord fields) := by
    have hsame := (buildRecord_document F (rfl : ({ s.core with builderScratch := .empty } :
      PushEmitter).document = s.core.document) fields).1
    unfold PushEmitter.commits
    rw [hsame]
    rfl
  simp only [hcommits]
  split_ifs
  · exact (buildRecord_document F rfl fields).2.symm
  · rfl

theorem flush_returns {whole : PushEmitter} {s s' : IoEmitter σ} {output : Output σ}
    {result : Except (IoError E) Unit} (h : s.Balanced whole output)
    (hflush : s.flush sink fuel = some (result, s')) :
    s'.Returns whole result ∧ (result = .ok () → s'.pending = []) := by
  rw [flush] at hflush
  by_cases hfailed : s.failed = true
  · rw [if_pos hfailed] at hflush
    cases hflush
    exact ⟨⟨⟨output, h⟩, nofun⟩, nofun⟩
  · rw [if_neg hfailed] at hflush
    obtain ⟨⟨drained, s₁⟩, hdrain, hresult⟩ := Option.map_eq_some_iff.mp hflush
    obtain ⟨⟨⟨output₁, hbalanced⟩, hlatched⟩, hempty⟩ := drain_returns h hdrain
    rcases drained with e | _
    · cases hresult
      exact ⟨⟨⟨output₁, hbalanced⟩, hlatched⟩, nofun⟩
    · simp only [hbalanced.sink] at hresult
      rcases hsink : sink.flush output₁.sink with ⟨e | _, state⟩ <;> rw [hsink] at hresult <;>
        cases hresult
      · exact ⟨⟨⟨_, rfl, hbalanced.document, hbalanced.unopened⟩, fun _ _ => rfl⟩, nofun⟩
      · exact ⟨⟨⟨_, rfl, hbalanced.document, hbalanced.unopened⟩, nofun⟩, fun _ => hempty rfl⟩

end IoEmitter

/-! ## Runs -/

namespace Session

variable {σ E : Type} {sink : Sink σ E} {fuel : ℕ} {F : CsvFormat}

/-- The session has written or holds the output of `whole`. -/
def Balanced (whole : PushEmitter) : Session σ → Prop
  | .live s => ∃ output, s.Balanced whole output
  | .taken output => output.confirmed = whole.buffer

/-- Latched by a failure of the sink. -/
def failed : Session σ → Bool
  | .live s => s.failed
  | .taken _ => false

theorem Balanced.buffer {whole : PushEmitter} {session : Session σ} (h : session.Balanced whole) :
    session.confirmed ++ session.pending = whole.buffer := by
  rcases session with s | output
  · obtain ⟨output, hbalanced⟩ := h
    simp only [confirmed, Session.output, hbalanced.sink, Option.map_some, Option.getD_some, pending]
    exact hbalanced.buffer
  · exact (List.append_nil _).trans h

/-- **One call keeps the balance**, with the record it adds; an I/O error latches
    the failure, and a flush that succeeds leaves nothing to write. -/
theorem step_balanced {whole : PushEmitter} {session next : Session σ} {op : IoOp}
    {result : Except (IoError E) Unit} (h : session.Balanced whole)
    (hstep : session.step sink fuel F op = some (result, next)) :
    next.Balanced (whole.run F (session.accepts F op)) ∧
      (∀ failure, result = .error (.io failure) → next.failed = true) ∧
      (op = .flush ∨ op = .intoInner → result = .ok () → next.pending = []) := by
  rcases session with s | output
  swap
  · cases hstep
    exact ⟨h, nofun, fun _ _ => rfl⟩
  obtain ⟨output, hbalanced⟩ := h
  -- a call that returns to the emitter
  have hlive : ∀ {call : IoEmitter.Call σ E} {records : List Op},
      step.live' call = some (result, next) →
      (∀ s', call = some (result, s') → s'.Returns (whole.run F records) result) →
      next.Balanced (whole.run F records) ∧
        ∀ failure, result = .error (.io failure) → next.failed = true := by
    intro call records hcall hreturns
    obtain ⟨⟨result', s'⟩, hreturned, hresult⟩ := Option.map_eq_some_iff.mp hcall
    cases hresult
    exact hreturns s' hreturned
  have hrecord : ∀ {call : IoEmitter.Call σ E} {record : Op}, op.op = some record →
      step.live' call = some (result, next) →
      (∀ s', call = some (result, s') → s'.Returns (whole.run F
        (if s.failed = false ∧ s.core.commits F record then [record] else [])) result) →
      next.Balanced (whole.run F (accepts F (.live s) op)) ∧
        (∀ failure, result = .error (.io failure) → next.failed = true) ∧
        (op = .flush ∨ op = .intoInner → result = .ok () → next.pending = []) := by
    intro call record hop hcall hreturns
    have hsame : accepts F (.live s) op =
        if s.failed = false ∧ s.core.commits F record then [record] else [] := by
      simp only [accepts, hop]
    rw [hsame]
    obtain ⟨hnext, hfailed⟩ := hlive hcall hreturns
    refine ⟨hnext, hfailed, ?_⟩
    rintro (rfl | rfl) <;> cases hop
  cases op with
  | emitRecord fields =>
    exact hrecord rfl hstep fun s' hcall => IoEmitter.accept_returns hbalanced
      (.emitRecord fields) rfl rfl hcall
  | emitByteRecord record =>
    exact hrecord rfl hstep fun s' hcall => IoEmitter.accept_returns hbalanced
      (.emitByteRecord record) rfl rfl hcall
  | emitNullableRecord fields =>
    exact hrecord rfl hstep fun s' hcall => IoEmitter.accept_returns hbalanced
      (.emitNullableRecord fields) rfl rfl hcall
  | encodeHeader fieldNames =>
    exact hrecord rfl hstep fun s' hcall => IoEmitter.accept_returns hbalanced
      (.encodeHeader fieldNames) rfl rfl hcall
  | encode value =>
    exact hrecord rfl hstep fun s' hcall => IoEmitter.accept_returns hbalanced
      (.encode value) rfl rfl hcall
  | serialize value =>
    exact hrecord rfl hstep fun s' hcall => IoEmitter.accept_returns hbalanced
      (.serialize value) rfl rfl hcall
  | buildRecord fields =>
    exact hrecord rfl hstep fun s' hcall => IoEmitter.buildRecord_returns hbalanced hcall
  | dropRecord fields =>
    cases hstep
    exact ⟨⟨output, hbalanced.congr rfl rfl rfl⟩, nofun, by rintro (h | h) <;> cases h⟩
  | flush =>
    obtain ⟨⟨result', s'⟩, hcall, hresult⟩ := Option.map_eq_some_iff.mp hstep
    cases hresult
    obtain ⟨⟨hnext, hfailed⟩, hempty⟩ := IoEmitter.flush_returns hbalanced hcall
    exact ⟨hnext, hfailed, fun _ => hempty⟩
  | intoInner =>
    obtain ⟨⟨result', s'⟩, hcall, hresult⟩ := Option.map_eq_some_iff.mp hstep
    obtain ⟨⟨⟨output', hnext⟩, hfailed⟩, hempty⟩ := IoEmitter.flush_returns hbalanced hcall
    rcases result' with e | _
    · cases hresult
      exact ⟨⟨output', hnext⟩, hfailed, nofun⟩
    · simp only [hnext.sink] at hresult
      cases hresult
      have hbuffer := hnext.buffer
      rw [hempty rfl, List.append_nil] at hbuffer
      exact ⟨hbuffer, nofun, fun _ _ => rfl⟩

variable (sink fuel F)

/-- **A failed emitter** refuses every record and every flush, and offers its
    sink nothing. -/
theorem step_failed {session : Session σ} (h : session.failed = true) (op : IoOp) :
    ∃ result next, session.step sink fuel F op = some (result, next) ∧ next.failed = true ∧
      next.output = session.output ∧ next.pending = session.pending ∧ session.accepts F op = [] ∧
      (result = .error .emitterFailed ∨ ∃ fields, op = .dropRecord fields) := by
  rcases session with s | output
  swap
  · cases h
  have hfailed : s.failed = true := h
  have haccepts : accepts F (.live s) op = [] := by
    cases op <;> simp [accepts, IoOp.op, hfailed]
  have haccept : ∀ write, s.accept sink fuel write = some (.error .emitterFailed, s) := by
    intro write
    rw [IoEmitter.accept, if_pos hfailed]
  have hflush : s.flush sink fuel = some (.error .emitterFailed, s) := by
    rw [IoEmitter.flush, if_pos hfailed]
  cases op with
  | buildRecord fields =>
    refine ⟨.error .emitterFailed,
      .live { s with core := { s.core with builderScratch := .ofFields fields } }, ?_, h, rfl, rfl,
      haccepts, Or.inl rfl⟩
    simp only [step, IoEmitter.buildRecord, IoEmitter.emitByteRecord, IoEmitter.accept, hfailed,
      if_true, Option.map_some, step.live']
  | dropRecord fields => exact ⟨_, _, rfl, h, rfl, rfl, haccepts, Or.inr ⟨fields, rfl⟩⟩
  | flush =>
    refine ⟨.error .emitterFailed, .live s, ?_, h, rfl, rfl, haccepts, Or.inl rfl⟩
    rw [step, hflush]
    rfl
  | intoInner =>
    refine ⟨.error .emitterFailed, .live s, ?_, h, rfl, rfl, haccepts, Or.inl rfl⟩
    rw [step, intoInner, hflush]
    rfl
  | _ =>
    refine ⟨.error .emitterFailed, .live s, ?_, h, rfl, rfl, haccepts, Or.inl rfl⟩
    exact congrArg step.live' (haccept _)

variable {sink fuel F} in
/-- **A run keeps the balance.** -/
theorem run_balanced {whole : PushEmitter} {session last : Session σ} {ops : List IoOp}
    {results : List (Except (IoError E) Unit)} {records : List Op} (h : session.Balanced whole)
    (hrun : session.run sink fuel F ops = some (last, results, records)) :
    last.Balanced (whole.run F records) ∧
      ((session.failed = true ∨ ∃ failure, .error (.io failure) ∈ results) → last.failed = true) := by
  induction ops generalizing session whole results records with
  | nil =>
    cases hrun
    exact ⟨h, fun hfailed => hfailed.resolve_right (by simp)⟩
  | cons op ops ih =>
    rw [run] at hrun
    obtain ⟨⟨result, next⟩, hstep, hrun⟩ := Option.bind_eq_some_iff.mp hrun
    obtain ⟨⟨last', results', records'⟩, hrest, hrun⟩ := Option.bind_eq_some_iff.mp hrun
    cases hrun
    obtain ⟨hnext, hlatched, -⟩ := step_balanced h hstep
    obtain ⟨hlast, hfailed⟩ := ih hnext hrest
    rw [PushEmitter.run, List.foldl_append]
    refine ⟨hlast, fun hcause => hfailed ?_⟩
    rcases hcause with hfailed | ⟨failure, hmem⟩
    · obtain ⟨_, _, hstep', hnext, -⟩ := step_failed sink fuel F hfailed op
      rw [hstep] at hstep'
      cases hstep'
      exact Or.inl hnext
    · rcases List.mem_cons.mp hmem with rfl | hmem
      · exact Or.inl (hlatched failure rfl)
      · exact Or.inr ⟨failure, hmem⟩

/-- A run of a failed emitter. -/
theorem run_failed {session : Session σ} (h : session.failed = true) (later : List IoOp) :
    ∃ last results, session.run sink fuel F later = some (last, results, []) ∧
      last.output = session.output ∧ last.pending = session.pending ∧
      List.Forall₂ (fun op result => result = .error .emitterFailed ∨
        ∃ fields, op = .dropRecord fields) later results := by
  induction later generalizing session with
  | nil => exact ⟨session, [], rfl, rfl, rfl, List.Forall₂.nil⟩
  | cons op later ih =>
    obtain ⟨result, next, hstep, hfailed, hout, hpending, haccepts, hresult⟩ :=
      step_failed sink fuel F h op
    obtain ⟨last, results, hrun, hout', hpending', hresults⟩ := ih hfailed
    refine ⟨last, result :: results, ?_, hout'.trans hout, hpending'.trans hpending,
      List.Forall₂.cons hresult hresults⟩
    rw [run, hstep]
    simp only [Option.bind_eq_bind, Option.bind_some, hrun, haccepts]
    rfl

/-- **An output stream loses no byte and repeats none.**  After every run of
    calls, whatever the sink has answered: the bytes it has confirmed, and then
    those that await a write, are the output of a push emitter with the records
    that were accepted.  Once a write or a flush has failed, every later record
    and flush is refused and the sink is not called.  A flush that succeeds, or
    the call that takes the sink, leaves no byte. -/
theorem run_exact (state : σ) (o : FormatSettings)
    (valid : o.Valid) (fieldCount : FieldCount) (hasHeaders : Bool) (bufferCapacity : ℕ)
    (ops : List IoOp) (session : Session σ) (results : List (Except (IoError E) Unit))
    (records : List Op)
    (hrun : run sink fuel F (.live (.new state o valid fieldCount hasHeaders bufferCapacity)) ops =
      some (session, results, records)) :
    session.confirmed ++ session.pending =
        ((PushEmitter.new o valid fieldCount hasHeaders).run F records).buffer ∧
      ((∃ failure, .error (.io failure) ∈ results) → ∀ later, ∃ last results',
        session.run sink fuel F later = some (last, results', []) ∧
        last.output = session.output ∧ last.pending = session.pending ∧
        List.Forall₂ (fun op result => result = .error .emitterFailed ∨
          ∃ fields, op = .dropRecord fields) later results') ∧
      ∀ op next, op = .flush ∨ op = .intoInner →
        session.step sink fuel F op = some (.ok (), next) → next.pending = [] := by
  have hnew : Balanced (.new o valid fieldCount hasHeaders)
      (.live (.new state o valid fieldCount hasHeaders bufferCapacity : IoEmitter σ)) :=
    ⟨⟨state, [], 0⟩, rfl, rfl, fun _ => ⟨rfl, rfl⟩⟩
  obtain ⟨hbalanced, hfailed⟩ := run_balanced hnew hrun
  exact ⟨hbalanced.buffer, fun hcause => run_failed sink fuel F (hfailed (Or.inr hcause)),
    fun op next hop hstep => (step_balanced hbalanced hstep).2.2 hop rfl⟩

/-- A sink that gives these answers to its first writes, and then takes all. -/
def scripted : Sink (List (WriteAnswer Unit)) Unit where
  write
    | [], buffer => (.ok buffer.length, [])
    | .ok count :: answers, buffer => (.ok (min count buffer.length), answers)
    | answer :: answers, _ => (answer, answers)
  flush answers := (.ok (), answers)
  write_le := by
    rintro (_ | ⟨_ | _ | _, answers⟩) buffer count h <;> cases h
    · exact Nat.le_refl _
    · exact Nat.min_le_right _ _

/-- A record is accepted and written in part: a byte, an interruption, an error. -/
theorem run_exact_short_write :
    ([97] : Bytes) ++ [44, 98, 10] = ((PushEmitter.new { dialect := .csv } (by decide) .matchFirst
      true).run none [.emitRecord [[97], [98]]]).buffer :=
  (run_exact scripted 9 none [.ok 1, .interrupted, .error ()] { dialect := .csv } (by decide)
    .matchFirst true 4 [.emitRecord [[97], [98]], .flush] _ _ _ rfl).1

end Session

/-! ## Calls return -/

section patient

variable {σ E : Type} {sink : Sink σ E} {rank : σ → ℕ}
  (hpatient : ∀ s buffer s', sink.write s buffer = (.interrupted, s') → rank s' < rank s)

include hpatient

/-- **A write loop returns**, if the sink does not ask for retries forever. -/
theorem writeConfirmed_settles (buffer : Bytes) (written : ℕ) (output : Output σ) :
    Settles fun fuel => writeConfirmed sink buffer fuel written output := by
  -- on the bytes left, and then on the retries left
  generalize hleft : buffer.length - written = left
  induction left using Nat.strong_induction_on generalizing written output with
  | _ left ihleft =>
    generalize hrank : rank output.sink = retries
    induction retries using Nat.strong_induction_on generalizing output with
    | _ retries ihrank =>
      by_cases hlt : written < buffer.length
      · rcases hwrite : sink.write output.sink (buffer.drop written) with ⟨answer, state⟩
        rcases answer with count | _ | e
        · rcases count with _ | count
          · refine (Settles.const (.error (written, .writeZero),
              { output with sink := state, calls := output.calls + 1 })).succ fun fuel => ?_
            rw [writeConfirmed, if_pos hlt]
            simp only [hwrite]
          · refine (ihleft (buffer.length - (written + (count + 1))) (by omega)
              (written + (count + 1)) ⟨state, output.confirmed ++
                (buffer.drop written).take (count + 1), output.calls + 1⟩ rfl).succ fun fuel => ?_
            rw [writeConfirmed, if_pos hlt]
            simp only [hwrite]
        · refine (ihrank (rank state) (hrank ▸ hpatient _ _ _ hwrite)
            { output with sink := state, calls := output.calls + 1 } rfl).succ fun fuel => ?_
          rw [writeConfirmed, if_pos hlt]
          simp only [hwrite]
        · refine (Settles.const (.error (written, .sink e),
            { output with sink := state, calls := output.calls + 1 })).succ fun fuel => ?_
          rw [writeConfirmed, if_pos hlt]
          simp only [hwrite]
      · refine (Settles.const (.ok (), output)).succ fun fuel => ?_
        rw [writeConfirmed, if_neg hlt]

namespace IoEmitter

theorem drain_settles (s : IoEmitter σ) : Settles fun fuel => s.drain sink fuel := by
  unfold drain
  rcases s.output with _ | output
  · exact .const _
  · simp only
    split_ifs
    · exact .const _
    · exact (writeConfirmed_settles hpatient _ 0 output).map _

theorem accept_settles (s : IoEmitter σ) (op : PushEmitter → Except EmitError Unit × PushEmitter) :
    Settles fun fuel => s.accept sink fuel op := by
  unfold accept commit
  split_ifs
  · exact .const _
  · rcases op s.core with ⟨e | _, core⟩
    · exact .const _
    · simp only
      split_ifs
      · exact drain_settles hpatient _
      · exact .const _

theorem flush_settles (s : IoEmitter σ) : Settles fun fuel => s.flush sink fuel := by
  unfold flush
  split_ifs
  · exact .const _
  · exact (drain_settles hpatient s).map _

end IoEmitter

namespace Session

theorem step_settles (F : CsvFormat) (session : Session σ) (op : IoOp) :
    Settles fun fuel => session.step sink fuel F op := by
  rcases session with s | output
  · cases op with
    | buildRecord fields => exact ((IoEmitter.accept_settles hpatient _ _).map _).map _
    | dropRecord fields => exact .const _
    | flush => exact (IoEmitter.flush_settles hpatient s).map _
    | intoInner => exact (IoEmitter.flush_settles hpatient s).map _
    | _ => exact (IoEmitter.accept_settles hpatient s _).map _
  · exact .const _

/-- **Every run of calls returns**, if the sink does not ask for retries forever. -/
theorem run_settles (F : CsvFormat) (session : Session σ) (ops : List IoOp) :
    Settles fun fuel => session.run sink fuel F ops := by
  induction ops generalizing session with
  | nil => exact .const _
  | cons op ops ih =>
    exact (step_settles hpatient F session op).bind fun (result, next) =>
      (ih next).bind fun (last, results, records) => .const _

end Session

end patient

end Coseva
