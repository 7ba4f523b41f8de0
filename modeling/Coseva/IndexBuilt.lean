/-
  Coseva — every index that is built is well formed, so that it is loaded as it
  was saved.

  * `Located`: positions that lie one behind the other, with their lines;
  * `positionsFrom_located`: what one parser reads;
  * `Tidy`: what the threads of a build keep, whatever fails;
  * `builds_located`: what a build returns;
  * `codec`: what is saved is loaded, and what is loaded is well formed.
-/
import Coseva.IndexCodec
import Coseva.IndexSerial
import Coseva.Progress
import Mathlib.Data.UInt

namespace Coseva

open Split Engine Run IndexFormat

namespace CsvIndex

/-! ## Positions -/

/-- Positions from `low` on, one behind the other within the document, with the
    lines that they lie on. -/
structure Located (input : Bytes) (low high : ℕ) (ps : List Position) : Prop where
  increasing : ps.Pairwise fun p q => p.offset < q.offset
  within : ∀ p ∈ ps, low ≤ p.offset ∧ p.offset < high
  line : ∀ p ∈ ps, p.line = physicalLine input 1 0 p.offset

variable {cfg : ParserSettings} {input doc : Bytes}

variable (input) in
/-- What one parser reads of a part of the document, whose lines it counts as the
    document does. -/
theorem positionsFrom_located (hs : cfg.dialect.Sound) :
    ∀ (fuel : ℕ) {e : Engine} {ps : List Position}, Poised doc e → e.lineOrigin ≤ e.location →
      (∀ byte, e.location ≤ byte → byte ≤ doc.length →
        physicalLine doc e.lineBase e.lineOrigin byte = physicalLine input 1 0 byte) →
      positionsFrom cfg doc fuel e = .ok ps → Located input e.location doc.length ps := by
  intro fuel
  induction fuel with
  | zero =>
    intro e ps _ _ _ h
    cases h
  | succ fuel ih =>
    intro e ps hpoised horigin hlines h
    have hmoves := nextRecord_moves hs cfg.follows_none hpoised
    unfold positionsFrom at h
    rcases hnext : SliceParser.nextRecord cfg none doc e with ⟨_ | record, e'⟩ | ⟨fault, e'⟩
    · rw [hnext] at h
      obtain rfl := Except.ok.inj h
      exact ⟨List.Pairwise.nil, fun _ h => (by cases h), fun _ h => (by cases h)⟩
    swap
    · rw [hnext] at h
      cases h
    rw [hnext] at h hmoves
    have hahead := hmoves record rfl
    have hstart : record.start < doc.length :=
      Nat.lt_of_lt_of_le hahead.lt (hahead.stop ▸ hahead.poised.inside)
    have hle : record.start ≤ e'.location := hahead.stop ▸ Nat.le_of_lt hahead.lt
    have hbehind : e.lineOrigin ≤ record.start := Nat.le_trans horigin hahead.le
    simp only [hahead.lineBase, hahead.lineOrigin] at h
    have hline := hlines record.start hahead.le (Nat.le_of_lt hstart)
    rw [hline] at h
    -- the lines are counted from this record on
    have hadvance : e'.advanceLineOrigin record.start (physicalLine input 1 0 record.start) =
        { e' with lineBase := physicalLine input 1 0 record.start, lineOrigin := record.start,
                  foldedUpto := record.start, foldedLines := 0 } := by
      unfold Engine.advanceLineOrigin
      rw [hahead.lineOrigin, if_pos hbehind,
        Nat.max_eq_left (show 1 ≤ physicalLine input 1 0 record.start from Nat.le_add_right 1 _)]
    rcases hrest : positionsFrom cfg doc fuel (e'.advanceLineOrigin record.start
      (physicalLine input 1 0 record.start)) with fault | rest
    · rw [hrest] at h
      cases h
    rw [hrest] at h
    obtain rfl := Except.ok.inj h
    have hlocated := ih
      (e := e'.advanceLineOrigin record.start (physicalLine input 1 0 record.start))
      (by rw [hadvance]; exact ⟨hahead.poised.failed, hahead.poised.headers, hahead.poised.ignored,
            hahead.poised.inside, hahead.poised.settled⟩)
      (by rw [hadvance]; exact hle)
      (fun byte hlow hhigh => by
        rw [hadvance] at hlow ⊢
        have hlow : e'.location ≤ byte := hlow
        rw [← hlines byte (by have := hahead.le; omega) hhigh,
          ← physicalLine_rebase hbehind (Nat.le_trans hle hlow) hhigh, hline]) hrest
    rw [hadvance] at hlocated
    refine ⟨List.pairwise_cons.mpr ⟨fun q hq => ?_, hlocated.increasing⟩,
      List.forall_mem_cons.mpr ⟨⟨hahead.le, hstart⟩, fun q hq => ?_⟩,
      List.forall_mem_cons.mpr ⟨rfl, hlocated.line⟩⟩
    · have hlow : e'.location ≤ q.offset := (hlocated.within q hq).1
      exact Nat.lt_of_lt_of_le (hahead.stop ▸ hahead.lt) hlow
    · have hlow : e'.location ≤ q.offset := (hlocated.within q hq).1
      have := hahead.le
      exact ⟨by omega, (hlocated.within q hq).2⟩

/-! ## Parsers -/

theorem build_ok {e : Engine} (h : SliceParser.build cfg doc = .ok e) : e = fromConfig cfg doc := by
  unfold SliceParser.build at h
  split_ifs at h
  exact (Except.ok.inj h).symm

theorem poised_fromConfig (doc : Bytes) (h : cfg.headers ≠ .firstRecord) :
    Poised doc (fromConfig cfg doc) := by
  refine ⟨rfl, (ready_fromConfig doc h).headers, rfl, ?_, nofun⟩
  show (fromConfig cfg doc).location ≤ doc.length
  unfold fromConfig fromConfigWithOwnedParser
  simp only
  split_ifs with hbom
  · exact (List.isPrefixOf_iff_prefix.mp hbom.2).length_le
  · exact Nat.zero_le _

theorem seek_ok {e e' : Engine} {b : Boundary} (hready : e.headersInitialized = true)
    (h : SliceParser.seek cfg doc b e = .ok e') : b.byte ≤ doc.length ∧ e' = e.seekTo b := by
  have hensure : ensureHeaders cfg doc e = .ok () e := by
    unfold ensureHeaders
    rw [get_bind, if_pos hready]
    rfl
  unfold SliceParser.seek at h
  by_cases hbyte : b.byte > doc.length
  · rw [if_pos hbyte] at h
    cases h
  rw [if_neg hbyte, hensure] at h
  exact ⟨Nat.not_lt.mp hbyte, (Except.ok.inj h).symm⟩

/-- The serial build. -/
theorem buildPositionsSerial_located (hs : cfg.dialect.Sound) (hheaders : cfg.headers ≠ .firstRecord)
    {ps : List Position} (h : buildPositionsSerial cfg input = .ok ps) :
    Located input 0 input.length ps := by
  unfold buildPositionsSerial at h
  rcases hbuild : SliceParser.build cfg input with fault | e
  · rw [hbuild] at h
    cases h
  rw [hbuild] at h
  obtain rfl := build_ok hbuild
  rcases hps : positionsFrom cfg input (input.length + 1) (fromConfig cfg input) with fault | ps'
  · simp only [hps] at h
    cases h
  simp only [hps] at h
  obtain rfl := Except.ok.inj h
  have hlocated := positionsFrom_located input hs _
    (poised_fromConfig input hheaders) (Nat.zero_le _) (fun _ _ _ => rfl) hps
  exact ⟨hlocated.increasing, fun p hp => ⟨Nat.zero_le _, (hlocated.within p hp).2⟩, hlocated.line⟩

/-- One chunk, from a boundary whose line is that of the document. -/
theorem parseIndexChunk_located (hs : cfg.dialect.Sound) (hheaders : cfg.headers ≠ .firstRecord)
    {chunks : List Boundary} {i : ℕ} {b : Boundary}
    (hlines : ∀ byte, b.byte ≤ byte → byte ≤ input.length →
      physicalLine input (max b.line 1) b.byte byte = physicalLine input 1 0 byte)
    {ps : List Position} (h : parseIndexChunk cfg input chunks i b = .ok ps) :
    Located input b.byte (min ((chunks[i + 1]?).elim input.length (·.byte)) input.length) ps := by
  unfold parseIndexChunk at h
  simp only at h
  generalize hstop : (chunks[i + 1]?).elim input.length (·.byte) = stop at h ⊢
  generalize hdoc : input.take stop = doc at h
  have hlength : doc.length = min stop input.length := by rw [← hdoc, List.length_take]
  rw [← hlength]
  rcases hbuild : SliceParser.build cfg doc with fault | e
  · simp only [hbuild] at h
    cases h
  obtain rfl := build_ok hbuild
  rcases hseek : SliceParser.seek cfg doc b (fromConfig cfg doc) with failure | e'
  · simp only [hbuild, hseek] at h
    cases h
  obtain ⟨hbyte, rfl⟩ := seek_ok (ready_fromConfig doc hheaders).headers hseek
  rcases hps : positionsFrom cfg doc (doc.length + 1) ((fromConfig cfg doc).seekTo b) with fault | ps'
  · simp only [hbuild, hseek, hps] at h
    cases h
  simp only [hbuild, hseek, hps] at h
  obtain rfl := Except.ok.inj h
  have hpoised : Poised doc ((fromConfig cfg doc).seekTo b) :=
    ⟨rfl, (ready_fromConfig doc hheaders).headers, rfl, hbyte, nofun⟩
  refine positionsFrom_located input hs _ hpoised
    (Nat.le_refl _) (fun byte hlow hhigh => ?_) hps
  have hlow : b.byte ≤ byte := hlow
  have hin : byte ≤ input.length := by omega
  refine Eq.trans ?_ (hlines byte hlow hin)
  show physicalLine doc (max b.line 1) b.byte byte = _
  unfold physicalLine slice
  simp only [Nat.min_eq_left hhigh, Nat.min_eq_left hin]
  rw [← hdoc, List.take_take, Nat.min_eq_left hlow, Nat.min_eq_left (by omega : byte ≤ stop)]

/-! ## Threads -/

section threads

open IndexWorker

variable {α : Type} {chunks : List Boundary} {parse : ℕ → Boundary → Except Failure α}
  {s s' : IndexSystem α}

/-- One thread takes over at most what a list holds. -/
theorem claims_set_subperm {ws : List (IndexWorker α)} {i : ℕ} {w w' : IndexWorker α} {l : List ℕ}
    (hi : ws[i]? = some w) (h : (claims w').Subperm (claims w ++ l)) :
    ((ws.set i w').flatMap claims).Subperm (ws.flatMap claims ++ l) := by
  obtain ⟨rest, hself, hset⟩ := Pool.flatMap_set claims hi
  refine (hset w').subperm.trans ((h.append (List.Subperm.refl rest)).trans (List.Perm.subperm ?_))
  refine List.Perm.trans ?_ (hself.symm.append_right l)
  rw [List.append_assoc, List.append_assoc]
  exact List.perm_append_comm.append_left _

variable (chunks parse) in
/-- What every step keeps, whatever fails: no chunk has two threads, and what is
    held of a chunk is what was read of it. -/
structure Tidy (s : IndexSystem α) : Prop where
  sound : ∀ w ∈ s.workers, Sound chunks parse s.shared.cursor w
  claimed : ∀ i ∈ s.workers.flatMap claims, i < s.shared.cursor
  once : (s.workers.flatMap claims).Nodup

/-- One thread moves from `w` to `w'`, with the chunks `l` that it claims. -/
theorem Tidy.put (h : Tidy chunks parse s) {i : ℕ} {w w' : IndexWorker α}
    (hi : s.workers[i]? = some w) {shared : Shared} {l : List ℕ}
    (hcursor : s.shared.cursor ≤ shared.cursor)
    (hsound : Sound chunks parse shared.cursor w') (hclaims : (claims w').Subperm (claims w ++ l))
    (hl : l.Nodup) (hnew : ∀ i ∈ l, s.shared.cursor ≤ i ∧ i < shared.cursor) :
    Tidy chunks parse ⟨shared, s.workers.set i w'⟩ := by
  have hsub := claims_set_subperm hi hclaims
  have honce : (s.workers.flatMap claims ++ l).Nodup := by
    refine List.nodup_append'.mpr ⟨h.once, hl, fun j hj hj' => ?_⟩
    have := h.claimed j hj
    have := hnew j hj'
    omega
  refine ⟨fun v hv => ?_, fun j hj => ?_, ?_⟩
  · rcases List.mem_or_eq_of_mem_set hv with hv | rfl
    · exact (h.sound v hv).mono hcursor
    · exact hsound
  · rcases List.mem_append.mp (hsub.subset hj) with hj | hj
    · exact Nat.lt_of_lt_of_le (h.claimed j hj) hcursor
    · exact (hnew j hj).2
  · obtain ⟨kept, hperm, hkept⟩ := hsub
    exact hperm.nodup_iff.mp (honce.sublist hkept)

theorem keeps_tidy : Schedule.Keeps (IndexSystem.step chunks parse) (Tidy chunks parse) := by
  intro s s' a h hstep
  obtain ⟨w, shared, w', hw, hmove, rfl⟩ := Pool.step_cases hstep
  have hwsound := h.sound w (List.mem_of_getElem? hw)
  cases w with
  | claiming held =>
    cases hmove
    have hsound : Sound chunks parse (s.shared.cursor + 1)
        (IndexWorker.claim chunks s.shared.cursor held) := (claim_sound hwsound.1).1
    refine h.put (l := [s.shared.cursor]) hw (Nat.le_succ _) hsound ?_ (List.nodup_singleton _)
      fun j hj => ?_
    · unfold IndexWorker.claim
      rcases chunks[s.shared.cursor]? with _ | b
      · exact (List.sublist_append_left _ _).subperm
      · unfold claims
        rw [List.append_nil]
        exact List.Subperm.refl _
    · obtain rfl := List.mem_singleton.mp hj
      exact ⟨Nat.le_refl _, Nat.lt_succ_self _⟩
  | checking i b held =>
    cases hmove
    obtain ⟨hheld, hb⟩ := hwsound
    refine h.put (l := []) hw (Nat.le_refl _) (check_sound hheld hb _) ?_ List.nodup_nil nofun
    rw [List.append_nil]
    refine List.Sublist.subperm ?_
    unfold IndexWorker.check claims
    by_cases hfenced : isFenced b.byte s.shared.barrier[a.seen]? = true
    · rw [if_pos hfenced, List.append_nil]
      exact List.sublist_append_left _ _
    rw [if_neg hfenced]
    rcases parse i b with failure | positions
    · rcases hfault : failure.fault? with _ | fault
      · simp only [hfault, List.append_nil]
        exact List.sublist_append_left _ _
      · simp only [hfault]
        exact List.nil_sublist _
    · simp only [IndexWorker.held, List.filterMap_append, List.map_append, List.append_nil]
      exact List.Sublist.refl _
  | fencing failure held =>
    cases hmove
    obtain ⟨hheld, hfailure⟩ := hwsound
    refine h.put (l := []) hw (Nat.le_refl _) ⟨fun r hr => ?_, trivial⟩ ?_ List.nodup_nil nofun
    · rcases List.mem_append.mp hr with hr | hr
      · exact hheld r hr
      · obtain rfl := List.mem_singleton.mp hr
        exact hfailure
    · unfold claims
      simp only [IndexWorker.held, List.filterMap_append, List.map_append, List.append_nil]
      exact (List.Perm.of_eq (List.append_nil _)).subperm
  | returned held => cases hmove
  | aborted fault => cases hmove

theorem spawn_tidy (n : ℕ) : Tidy chunks parse (IndexSystem.spawn n) := by
  have hnone : (List.replicate n (.claiming [] : IndexWorker α)).flatMap claims = [] := by
    refine List.flatMap_eq_nil_iff.mpr fun w hw => ?_
    rw [List.eq_of_mem_replicate hw]
    rfl
  refine ⟨fun w hw => ?_, ?_, ?_⟩
  · rw [List.eq_of_mem_replicate hw]
    exact ⟨nofun, trivial⟩
  · show ∀ i ∈ (List.replicate n (.claiming [] : IndexWorker α)).flatMap claims, i < 0
    rw [hnone]
    exact nofun
  · show ((List.replicate n (.claiming [] : IndexWorker α)).flatMap claims).Nodup
    rw [hnone]
    exact List.nodup_nil

/-- The results of a build that succeeds, in the order of their chunks. -/
theorem Tidy.outcome (h : Tidy chunks parse s) {results : List α}
    (hout : s.outcome = some (.ok results)) : ∃ read : List (ℕ × α), results = read.map (·.2) ∧
      read.Pairwise (fun a b => a.1 < b.1) ∧ ∀ c ∈ read, Ends chunks parse c.1 (.ok c.2) := by
  unfold IndexSystem.outcome at hout
  split_ifs at hout with hdone
  rcases hfault : s.workers.findSome? IndexWorker.fault? with _ | fault <;> rw [hfault] at hout
  swap
  · cases hout
  rcases hfold : (s.workers.flatMap IndexWorker.results).foldl IndexSystem.keepEarliestFailure none
    with _ | failure <;> simp only [hfold] at hout
  swap
  · cases hout
  have hresults : ((s.workers.flatMap IndexWorker.results).filterMap IndexSystem.chunk?).map (·.1) =
      s.workers.flatMap claims := by
    rw [List.filterMap_flatMap, List.map_flatMap]
    refine List.flatMap_congr fun w hw => ?_
    have hnone := List.findSome?_eq_none_iff.mp hfault w hw
    have hfin := List.all_eq_true.mp hdone w hw
    cases w with
    | returned held => exact (List.append_nil _).symm
    | aborted fault => cases hnone
    | claiming _ => cases hfin
    | checking _ _ _ => cases hfin
    | fencing _ _ => cases hfin
  have hgenuine : ∀ c ∈ (s.workers.flatMap IndexWorker.results).filterMap IndexSystem.chunk?,
      Ends chunks parse c.1 (.ok c.2) := by
    intro c hc
    obtain ⟨r, hr, hchunk⟩ := List.mem_filterMap.mp hc
    obtain ⟨w, hw, hr⟩ := List.mem_flatMap.mp hr
    cases r with
    | error failure => cases hchunk
    | ok chunk =>
      obtain rfl := Option.some.inj hchunk
      cases w with
      | returned held => exact (h.sound _ hw).1 _ hr
      | _ => exact absurd hr List.not_mem_nil
  have honce := h.once
  rw [← hresults] at honce
  generalize (s.workers.flatMap IndexWorker.results).filterMap IndexSystem.chunk? = l at *
  refine ⟨_, (Except.ok.inj (Option.some.inj hout)).symm, ?_, fun c hc => ?_⟩
  · have hperm := (List.mergeSort_perm l fun a b : ℕ × α => decide (a.1 ≤ b.1)).map (·.1)
    have hdistinct := List.pairwise_map.mp (hperm.nodup_iff.mpr honce)
    have hsorted : (l.mergeSort fun a b => decide (a.1 ≤ b.1)).Pairwise
        fun a b => decide (a.1 ≤ b.1) = true :=
      List.pairwise_mergeSort (fun a b c hab hbc => by simp only [decide_eq_true_eq] at *; omega)
        (fun a b => by simp only [Bool.or_eq_true, decide_eq_true_eq]; omega) l
    exact (hsorted.and hdistinct).imp fun hab => Nat.lt_of_le_of_ne (of_decide_eq_true hab.1) hab.2
  · exact hgenuine c ((List.mergeSort_perm l _).mem_iff.mp hc)

end threads

/-! ## Builds -/

/-- A list that is put together of lists that are located one behind the other. -/
theorem located_flatten {chunks : List (ℕ × List Position)} (low high : ℕ → ℕ)
    (hsorted : chunks.Pairwise fun a b => a.1 < b.1) (hhigh : ∀ i, high i ≤ input.length)
    (hapart : ∀ i j, i < j → high i ≤ low j)
    (hall : ∀ c ∈ chunks, Located input (low c.1) (high c.1) c.2) :
    Located input 0 input.length (chunks.map (·.2)).flatten := by
  refine ⟨?_, fun p hp => ?_, fun p hp => ?_⟩
  · rw [List.pairwise_flatten]
    refine ⟨fun ps hps => ?_, List.pairwise_map.mpr ?_⟩
    · obtain ⟨c, hc, rfl⟩ := List.mem_map.mp hps
      exact (hall c hc).increasing
    · refine hsorted.imp_of_mem fun {a b} ha hb hab p hp q hq => ?_
      have hpa := (hall a ha).within p hp
      have hqb := (hall b hb).within q hq
      have := hapart a.1 b.1 hab
      omega
  · obtain ⟨ps, hps, hp⟩ := List.mem_flatten.mp hp
    obtain ⟨c, hc, rfl⟩ := List.mem_map.mp hps
    exact ⟨Nat.zero_le _, Nat.lt_of_lt_of_le ((hall c hc).within p hp).2 (hhigh _)⟩
  · obtain ⟨ps, hps, hp⟩ := List.mem_flatten.mp hp
    obtain ⟨c, hc, rfl⟩ := List.mem_map.mp hps
    exact (hall c hc).line p hp

/-- The parallel build, whatever its schedule. -/
theorem buildsParallel_located (hs : cfg.dialect.Sound) (hheaders : cfg.headers ≠ .firstRecord)
    {threads : ℕ} {ps : List Position} (h : BuildsParallel cfg input threads (.ok ps)) :
    Located input 0 input.length ps := by
  generalize hr : (Except.ok ps : Except Failure (List Position)) = r at h
  cases h with
  | unprepared _ => cases hr
  | misplaced _ _ => cases hr
  | @threads probe _ chunks schedule s outcome hb _ hc hrun hout =>
    obtain rfl := build_ok hb
    rcases outcome with failure | results
    · cases hr
    obtain rfl := Except.ok.inj hr
    obtain ⟨read, rfl, hsorted, hread⟩ := (keeps_tidy.run (spawn_tidy _) hrun).outcome hout
    have hstart : (SliceParser.location input (fromConfig cfg input)).byte ≤ input.length :=
      (poised_fromConfig input hheaders).inside
    obtain ⟨ns, hchunks, hns, -⟩ := boundaries_spec cfg.dialect hstart (threads * chunksPerThread)
    rw [← hc] at hchunks
    have hat : ∀ {i : ℕ} {b : Boundary}, chunks[i]? = some b → ∃ m, (0 :: ns)[i]? = some m ∧
        after cfg.dialect input (SliceParser.location input (fromConfig cfg input)) m = b := by
      intro i b hb
      rw [hchunks, List.getElem?_map] at hb
      exact Option.map_eq_some_iff.mp hb
    refine located_flatten (fun i => (chunks[i]?).elim input.length (·.byte))
      (fun i => min ((chunks[i + 1]?).elim input.length (·.byte)) input.length) hsorted
      (fun i => Nat.min_le_right _ _) (fun i j hij => ?_) (fun c hmem => ?_)
    · rcases hj : chunks[j]? with _ | b
      · exact Nat.min_le_right _ _
      obtain ⟨m, hm, rfl⟩ := hat hj
      obtain ⟨b', hb'⟩ : ∃ b', chunks[i + 1]? = some b' := by
        have := (List.getElem?_eq_some_iff.mp hj).1
        exact ⟨_, List.getElem?_eq_getElem (by omega)⟩
      obtain ⟨m', hm', rfl⟩ := hat hb'
      have hle : m' ≤ m := by
        rcases Nat.lt_or_eq_of_le (Nat.succ_le_of_lt hij) with hlt | heq
        · obtain ⟨hi, hm'⟩ := List.getElem?_eq_some_iff.mp hm'
          obtain ⟨hj, hm⟩ := List.getElem?_eq_some_iff.mp hm
          exact hm' ▸ hm ▸ Nat.le_of_lt (List.pairwise_iff_getElem.mp hns _ _ hi hj hlt)
        · rw [← heq] at hm
          exact Nat.le_of_eq (Option.some.inj (hm'.symm.trans hm))
      simp only [hb', Option.elim_some]
      exact Nat.le_trans (Nat.min_le_left _ _) (recordStart_mono hstart hle)
    · obtain ⟨b, hb, hparse⟩ := hread c hmem
      obtain ⟨m, -, rfl⟩ := hat hb
      simp only [hb, Option.elim_some]
      refine parseIndexChunk_located hs hheaders (fun byte hlow hhigh => ?_) hparse
      rw [physicalLine_after hstart (Nat.le_add_right 1 _) m hlow]
      exact physicalLine_rebase (Nat.zero_le _)
        (Nat.le_trans (recordStart_mono hstart (Nat.zero_le m)) hlow) hhigh

/-- Whatever builds it, an index has the positions of one parser's records. -/
theorem builds_located {o : IndexOptions} {host : Host} {threads : ℕ} {ps : List Position}
    (h : Builds input o host threads (.ok ps)) : Located input 0 input.length ps := by
  have hs : (o.settings host).dialect.Sound := o.valid.sound
  have hheaders : (o.settings host).headers ≠ .firstRecord := nofun
  generalize hr : (Except.ok ps : Except Failure (List Position)) = r at h
  cases h with
  | serial _ => exact buildPositionsSerial_located hs hheaders hr.symm
  | parallel _ _ h =>
    subst hr
    exact buildsParallel_located hs hheaders h

theorem physicalLine_mono {i j : ℕ} (hij : i ≤ j) :
    physicalLine input 1 0 i ≤ physicalLine input 1 0 j := by
  have htakes : input.take (min i input.length) <+: input.take (min j input.length) :=
    List.take_prefix_take_left (by omega)
  unfold physicalLine slice
  simp only [Nat.zero_min, List.drop_zero]
  exact Nat.add_le_add_left (htakes.sublist.count_le 10) 1

theorem physicalLine_le (i : ℕ) : physicalLine input 1 0 i ≤ 1 + i := by
  unfold physicalLine slice
  have := List.count_le_length (a := (10 : UInt8)) (l := (input.take (min i input.length)).drop 0)
  simp only [Nat.zero_min]
  rw [List.length_drop, List.length_take] at this
  omega

/-- The index of located positions is well formed. -/
theorem Located.wellFormed {ps : List Position} (h : Located input 0 input.length ps)
    (hash : HashFunction) {o : IndexOptions} (hlimits : Fits o.limits) (hshort : input.length < 2 ^ 64) :
    (ofPositions hash o input ps).WellFormed := by
  have hoffset : ∀ p ∈ ps, (UInt64.ofNat p.offset).toNat = p.offset := by
    intro p hp
    have := (h.within p hp).2
    rw [UInt64.toNat_ofNat', Nat.mod_eq_of_lt (by omega)]
  have hline : ∀ p ∈ ps, (UInt64.ofNat p.line).toNat = p.line := by
    intro p hp
    have hlt := (h.within p hp).2
    have hle : physicalLine input 1 0 p.offset ≤ 1 + p.offset := physicalLine_le _
    rw [← h.line p hp] at hle
    rw [UInt64.toNat_ofNat', Nat.mod_eq_of_lt (by omega)]
  refine ⟨?_, hlimits, ?_, ?_, ?_, ?_, ?_⟩
  · show o.format.toFormatSettings.dialect.invalidity = none
    have hvalid := o.valid
    unfold FormatSettings.Valid FormatSettings.invalidity at hvalid
    rcases hd : o.format.toFormatSettings.dialect.invalidity with _ | reason
    · rfl
    · rw [hd] at hvalid
      cases hvalid
  · show (ps.map _).length = (ps.map _).length
    rw [List.length_map, List.length_map]
  · refine List.pairwise_map.mpr (h.increasing.imp_of_mem fun {p q} hp hq hpq => ?_)
    rw [UInt64.lt_iff_toNat_lt, hoffset p hp, hoffset q hq]
    exact hpq
  · refine List.forall_mem_map.mpr fun p hp => ?_
    show UInt64.ofNat p.offset < UInt64.ofNat input.length
    rw [UInt64.lt_iff_toNat_lt, hoffset p hp, UInt64.toNat_ofNat', Nat.mod_eq_of_lt hshort]
    exact (h.within p hp).2
  · refine List.pairwise_map.mpr (h.increasing.imp_of_mem fun {p q} hp hq hpq => ?_)
    rw [UInt64.le_iff_toNat_le, hline p hp, hline q hq, h.line p hp, h.line q hq]
    exact physicalLine_mono (Nat.le_of_lt hpq)
  · refine List.forall_mem_map.mpr fun p hp => ?_
    rw [UInt64.le_iff_toNat_le, hline p hp, h.line p hp]
    exact Nat.le_add_right 1 _

/-! ## The codec -/

/-- The lazy reader of a file reports what an index holds. -/
def Reports (file : Bytes) (ix : CsvIndex) : Prop :=
  ∃ r, CsvIndexReader.new file = .ok r ∧ r.sourceLen = ix.sourceLen ∧ r.sourceHash = ix.sourceHash ∧
    r.format = ix.format ∧ r.limits = ix.limits ∧ r.len = ix.len ∧
    ∀ record, r.entry record = .ok (ix.entry record) ∧ r.location record = ix.locationAt record

theorem load_reports {hash : HashFunction} {file : Bytes} {ix : CsvIndex}
    (h : load hash file = .ok ix) : Reports file ix := by
  obtain ⟨hwell, headerBytes, header, trailer, hloaded⟩ := load_ok hash h
  exact ⟨_, hloaded.new_eq, rfl, rfl, rfl, rfl, hloaded.count, fun record =>
    ⟨hloaded.entry_eq hwell hloaded.new_eq record, hloaded.location_eq hwell hloaded.new_eq record⟩⟩

/-- **The file of an index**: an index that is built is loaded as it was saved,
    and so is every index that is well formed; what a file loads as is well
    formed, the lazy reader of the file reports the same positions, and it is
    loaded again as it is saved. -/
theorem codec (hash : HashFunction) :
    (∀ (o : IndexOptions) (host : Host) (threads : ℕ) (source : Bytes) (ps : List Position),
      Fits o.limits → source.length < 2 ^ 64 → Builds source o host threads (.ok ps) →
      ((ofPositions hash o source ps).save hash).length < 2 ^ 64 →
      load hash ((ofPositions hash o source ps).save hash) = .ok (ofPositions hash o source ps) ∧
        Reports ((ofPositions hash o source ps).save hash) (ofPositions hash o source ps)) ∧
    (∀ ix : CsvIndex, ix.WellFormed → (ix.save hash).length < 2 ^ 64 →
      load hash (ix.save hash) = .ok ix ∧ Reports (ix.save hash) ix) ∧
    ∀ (file : Bytes) (ix : CsvIndex), load hash file = .ok ix →
      ix.offsets.Pairwise (· < ·) ∧ (∀ offset ∈ ix.offsets, offset < ix.sourceLen) ∧
      ix.lines.Pairwise (· ≤ ·) ∧ (∀ line ∈ ix.lines, 1 ≤ line) ∧
      ix.offsets.length = ix.lines.length ∧ Reports file ix ∧
      ((ix.save hash).length < 2 ^ 64 → load hash (ix.save hash) = .ok ix) := by
  have hwell : ∀ ix : CsvIndex, ix.WellFormed → (ix.save hash).length < 2 ^ 64 →
      load hash (ix.save hash) = .ok ix ∧ Reports (ix.save hash) ix := by
    intro ix hix hshort
    have hload := load_save hash hix hshort
    exact ⟨hload, load_reports hload⟩
  refine ⟨fun o host threads source ps hlimits hsource hbuilds hshort => ?_, hwell,
    fun file ix hload => ?_⟩
  · exact hwell _ ((builds_located hbuilds).wellFormed hash hlimits hsource) hshort
  · obtain ⟨hix, -⟩ := load_ok hash hload
    exact ⟨hix.increasing, hix.within, hix.nondecreasing, hix.numbered, hix.paired,
      load_reports hload, fun hshort => (hwell ix hix hshort).1⟩

/-- A hash: the sum of the bytes. -/
def digest : HashFunction := fun bytes => Vector.replicate 16 bytes.sum

/-- The index of two records. -/
def twoRecords : CsvIndex := ofPositions digest plain [97, 10, 98, 10] [⟨0, 1⟩, ⟨2, 2⟩]

theorem codec_two_records :
    (load digest (twoRecords.save digest) = .ok twoRecords ∧
      Reports (twoRecords.save digest) twoRecords) ∧
    Reports (twoRecords.save digest) twoRecords ∧
    twoRecords.offsets.Pairwise (· < ·) ∧ load digest (twoRecords.save digest) = .ok twoRecords := by
  have hserial : buildPositionsSerial (plain.settings machine) [97, 10, 98, 10] =
      .ok [⟨0, 1⟩, ⟨2, 2⟩] := by decide +kernel
  have hbuilds : Builds [97, 10, 98, 10] plain machine 1 (.ok [⟨0, 1⟩, ⟨2, 2⟩]) :=
    hserial ▸ Builds.serial (by decide)
  have hlimits : Fits plain.limits := by unfold Fits; decide
  have hwell : twoRecords.WellFormed :=
    (builds_located hbuilds).wellFormed digest hlimits (by decide)
  have hshort : (twoRecords.save digest).length < 2 ^ 64 := by
    rw [length_save digest hwell.paired]
    decide
  obtain ⟨hbuilt, hsaved, hloaded⟩ := codec digest
  have hload := (hsaved twoRecords hwell hshort).1
  have hagain := hloaded _ _ hload
  exact ⟨hbuilt plain machine 1 _ _ hlimits (by decide) hbuilds hshort, (hsaved _ hwell hshort).2,
    hagain.1, hagain.2.2.2.2.2.2 hshort⟩

end CsvIndex

end Coseva
