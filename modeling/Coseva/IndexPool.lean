/-
  Coseva — the threads of an index build come to what the chunks come to one
  after another, whatever reads a chunk.

  * `sequence`: the chunks one after another;
  * `Orderly`: errors lie in their chunks, and the first lies ahead of the rest;
  * `Inv`: the invariant of the threads, kept by every step;
  * `outcome_sequence`: what every schedule comes to;
  * `exists_outcome`: every schedule ends.
-/
import Coseva.IndexBuild
import Coseva.Unordered

namespace Coseva

open Split

namespace CsvIndex

variable {α : Type} (chunks : List Boundary) (parse : ℕ → Boundary → Except Failure α)

/-- The chunks one after another, the first of them with this index. -/
def sequence : (index : ℕ) → List Boundary → Except Failure (List α)
  | _, [] => .ok []
  | index, start :: rest =>
    match parse index start with
    | .error failure => .error failure
    | .ok positions => (positions :: ·) <$> sequence (index + 1) rest

/-- What the chunk of an index comes to. -/
def Ends (i : ℕ) (r : Except Failure α) : Prop := ∃ b, chunks[i]? = some b ∧ parse i b = r

/-- The chunk `k` is the first that fails. -/
structure FirstFails (k : ℕ) (failure : Failure) : Prop where
  fails : Ends chunks parse k (.error failure)
  first : ∀ j < k, ∃ a, Ends chunks parse j (.ok a)

/-- Errors lie in their chunks. -/
structure Orderly : Prop where
  sorted : (chunks.map (·.byte)).Pairwise (· < ·)
  behind : ∀ i b failure, chunks[i]? = some b → parse i b = .error failure →
    failure.fault? = none → b.byte ≤ failure.byte
  panic : ∀ i failure fault, Ends chunks parse i (.error failure) → failure.fault? = some fault →
    fault = .panic
  /-- the error of the first chunk that fails lies ahead of all others, which
      end no thread -/
  ahead : ∀ k failure, FirstFails chunks parse k failure → failure.fault? = none →
    ∀ j failure', k < j → Ends chunks parse j (.error failure') →
      failure'.fault? = none ∧ (failure.byte < failure'.byte ∨ failure' = failure)

variable {chunks parse}

theorem Ends.eq {i : ℕ} {r r' : Except Failure α} (h : Ends chunks parse i r)
    (h' : Ends chunks parse i r') : r = r' := by
  obtain ⟨b, hb, hr⟩ := h
  obtain ⟨b', hb', hr'⟩ := h'
  obtain rfl := Option.some.inj (hb.symm.trans hb')
  exact hr.symm.trans hr'

theorem FirstFails.le {k i : ℕ} {failure failure' : Failure} (h : FirstFails chunks parse k failure)
    (hi : Ends chunks parse i (.error failure')) : k ≤ i := by
  by_contra hlt
  obtain ⟨a, ha⟩ := h.first i (Nat.lt_of_not_le hlt)
  have := ha.eq hi
  cases this

theorem Orderly.start_lt (h : Orderly chunks parse) {i j : ℕ} {b b' : Boundary} (hij : i < j)
    (hb : chunks[i]? = some b) (hb' : chunks[j]? = some b') : b.byte < b'.byte := by
  obtain ⟨hi, rfl⟩ := List.getElem?_eq_some_iff.mp hb
  obtain ⟨hj, rfl⟩ := List.getElem?_eq_some_iff.mp hb'
  exact List.pairwise_iff_getElem.mp (List.pairwise_map.mp h.sorted) i j hi hj hij

theorem fault?_eq {failure : Failure} {fault : Fault} (h : failure.fault? = some fault) :
    failure = .parse fault := by
  cases failure with
  | configuration detail => cases h
  | parse fault' =>
    cases fault' with
    | error kind location => cases h
    | panic => rw [← Option.some.inj h]
    | stuck => rw [← Option.some.inj h]

/-! ## What a thread is about -/

namespace IndexWorker

/-- What a thread has read. -/
def held : IndexWorker α → List (Except Failure (ℕ × α))
  | claiming held | checking _ _ held | fencing _ held | returned held => held
  | aborted _ => []

variable (chunks parse) in
/-- A result that a thread may keep. -/
def Genuine : Except Failure (ℕ × α) → Prop
  | .ok (i, a) => Ends chunks parse i (.ok a)
  | .error failure => failure.fault? = none ∧ ∃ i, Ends chunks parse i (.error failure)

variable (chunks parse) in
/-- What is true of a thread once `cursor` chunks are claimed. -/
def Sound (cursor : ℕ) (w : IndexWorker α) : Prop :=
  (∀ r ∈ w.held, Genuine chunks parse r) ∧
  match w with
  | .claiming _ => True
  | .checking i b _ => chunks[i]? = some b
  | .fencing failure _ => Genuine chunks parse (.error failure)
  | .returned _ => chunks.length < cursor
  | .aborted fault => ∃ i failure, Ends chunks parse i (.error failure) ∧
    failure.fault? = some fault

/-- A thread that has the failure of the chunk `k` ahead of it, or has met it. -/
def Covers (k : ℕ) (failure : Failure) (w : IndexWorker α) : Prop :=
  .error failure ∈ w.held ∨
  match w with
  | .checking i _ _ => i = k
  | .fencing failure' _ => failure' = failure
  | .aborted _ => True
  | .claiming _ | .returned _ => False

theorem Sound.mono {cursor cursor' : ℕ} {w : IndexWorker α} (h : Sound chunks parse cursor w)
    (hle : cursor ≤ cursor') : Sound chunks parse cursor' w := by
  refine ⟨h.1, ?_⟩
  have h2 := h.2
  cases w with
  | returned held => exact Nat.lt_of_lt_of_le h2 hle
  | _ => exact h2

theorem claim_sound {cursor : ℕ} {held : List (Except Failure (ℕ × α))}
    (h : ∀ r ∈ held, Genuine chunks parse r) :
    Sound chunks parse (cursor + 1) (claim chunks cursor held) ∧
      (claim chunks cursor held).held = held := by
  unfold claim
  rcases hb : chunks[cursor]? with _ | b
  · exact ⟨⟨h, Nat.lt_succ_of_le (List.getElem?_eq_none_iff.mp hb)⟩, rfl⟩
  · exact ⟨⟨h, hb⟩, rfl⟩

theorem check_sound {cursor i : ℕ} {b : Boundary} {held : List (Except Failure (ℕ × α))}
    (h : ∀ r ∈ held, Genuine chunks parse r) (hb : chunks[i]? = some b) (barrier : Option ℕ) :
    Sound chunks parse cursor (check parse i b held barrier) := by
  unfold check
  by_cases hfenced : isFenced b.byte barrier = true
  · rw [if_pos hfenced]
    exact ⟨h, trivial⟩
  rw [if_neg hfenced]
  rcases hr : parse i b with failure | positions
  · rcases hf : failure.fault? with _ | fault
    · simp only [hf]
      exact ⟨h, hf, i, b, hb, hr⟩
    · simp only [hf]
      exact ⟨nofun, i, failure, ⟨b, hb, hr⟩, hf⟩
  · refine ⟨fun r hmem => ?_, trivial⟩
    rcases List.mem_append.mp hmem with hmem | hmem
    · exact h r hmem
    · obtain rfl := List.mem_singleton.mp hmem
      exact ⟨b, hb, hr⟩

/-- A thread loses what it has read only by its panic. -/
theorem check_held (i : ℕ) (b : Boundary) (held : List (Except Failure (ℕ × α)))
    (barrier : Option ℕ) :
    (∀ r ∈ held, r ∈ (check parse i b held barrier).held) ∨
      ∃ fault, check parse i b held barrier = .aborted fault := by
  unfold check
  by_cases hfenced : isFenced b.byte barrier = true
  · rw [if_pos hfenced]
    exact Or.inl fun _ hr => hr
  rw [if_neg hfenced]
  rcases parse i b with failure | positions
  · rcases hf : failure.fault? with _ | fault
    · simp only [hf]
      exact Or.inl fun _ hr => hr
    · simp only [hf]
      exact Or.inr ⟨fault, rfl⟩
  · exact Or.inl fun _ hr => List.mem_append_left _ hr

end IndexWorker

open IndexWorker

/-! ## Steps of the system -/

variable (chunks parse) in
/-- What every step keeps. -/
structure Inv (s : IndexSystem α) : Prop where
  sound : ∀ w ∈ s.workers, Sound chunks parse s.shared.cursor w
  /-- the fence names an error that a thread keeps, or kept up to its panic -/
  fence : ∀ v ∈ s.shared.barrier, ∃ failure : Failure, failure.byte = v ∧
    Genuine chunks parse (.error failure) ∧
    ∃ w ∈ s.workers, .error failure ∈ w.held ∨ ∃ fault, w = .aborted fault
  /-- once its chunk is claimed, a thread has the first failure ahead of it -/
  covered : ∀ {k : ℕ} {failure : Failure}, FirstFails chunks parse k failure →
    k < s.shared.cursor → ∃ w ∈ s.workers, Covers k failure w

variable {s s' : IndexSystem α}

theorem covers_of_kept {k : ℕ} {failure : Failure} {w : IndexWorker α}
    (h : .error failure ∈ w.held ∨ ∃ fault, w = .aborted fault) : Covers k failure w := by
  rcases h with h | ⟨fault, rfl⟩
  · exact Or.inl h
  · exact Or.inr trivial

/-- One thread moves from `w` to `w'`. -/
theorem Inv.put (h : Inv chunks parse s) {i : ℕ} {w w' : IndexWorker α} (hi : s.workers[i]? = some w)
    {shared : Shared} (hcursor : s.shared.cursor ≤ shared.cursor)
    (hlive : ∀ fault, w ≠ .aborted fault) (hsound : Sound chunks parse shared.cursor w')
    (hheld : (∀ r ∈ w.held, r ∈ w'.held) ∨ ∃ fault, w' = .aborted fault)
    (hbarrier : ∀ v ∈ shared.barrier, v ∈ s.shared.barrier ∨ ∃ failure : Failure,
      failure.byte = v ∧ .error failure ∈ w'.held)
    (hcovers : ∀ {k failure}, FirstFails chunks parse k failure → .error failure ∉ w.held →
      Covers k failure w → Covers k failure w' ∨ ∃ v ∈ s.workers, v ≠ w ∧ Covers k failure v)
    (hclaimed : ∀ {k failure}, FirstFails chunks parse k failure → s.shared.cursor ≤ k →
      k < shared.cursor → Covers k failure w') :
    Inv chunks parse ⟨shared, s.workers.set i w'⟩ := by
  have hself := Pool.mem_set_self hi w'
  constructor
  · intro v hv
    rcases List.mem_or_eq_of_mem_set hv with hv | rfl
    · exact (h.sound v hv).mono hcursor
    · exact hsound
  · intro v hv
    rcases hbarrier v hv with hv | ⟨failure, hbyte, hmem⟩
    · obtain ⟨failure, hbyte, hgenuine, hkept⟩ := h.fence v hv
      refine ⟨failure, hbyte, hgenuine, Pool.exists_mem_set hi (fun hkeeps => Or.inl ?_) hkept⟩
      rcases hkeeps with hmem | ⟨fault, rfl⟩
      · exact hheld.imp_left fun hheld => hheld _ hmem
      · exact absurd rfl (hlive fault)
    · exact ⟨failure, hbyte, hsound.1 _ hmem, w', hself, Or.inl hmem⟩
  · intro k failure hk hlt
    rcases Nat.lt_or_ge k s.shared.cursor with hold | hnew
    · refine Pool.exists_mem_set hi (fun hcovered => ?_) (h.covered hk hold)
      by_cases hmem : .error failure ∈ w.held
      · exact Or.inl (covers_of_kept (hheld.imp_left fun hheld => hheld _ hmem))
      · exact hcovers hk hmem hcovered
    · exact ⟨w', hself, hclaimed hk hnew hlt⟩

/-- Only its own failure fences the first chunk that fails. -/
theorem eq_of_fenced (ho : Orderly chunks parse) {k : ℕ} {b : Boundary} {failure failure' : Failure}
    (hk : FirstFails chunks parse k failure) (hb : chunks[k]? = some b)
    (h : Genuine chunks parse (.error failure')) (hle : failure'.byte ≤ b.byte) :
    failure' = failure := by
  obtain ⟨hfault, i, hi⟩ := h
  rcases Nat.lt_or_eq_of_le (hk.le hi) with hlt | rfl
  · obtain ⟨b', hb', hr⟩ := hi
    have hbehind := ho.behind i b' failure' hb' hr hfault
    have := ho.start_lt hlt hb hb'
    omega
  · exact Except.error.inj (hi.eq hk.fails)

/-- **Every step keeps the invariant.** -/
theorem keeps_inv (ho : Orderly chunks parse) :
    Schedule.Keeps (IndexSystem.step chunks parse) (Inv chunks parse) := by
  intro s s' a h hstep
  obtain ⟨w, shared, w', hw, hmove, rfl⟩ := Pool.step_cases hstep
  have hwsound := h.sound w (List.mem_of_getElem? hw)
  cases w with
  | claiming held =>
    cases hmove
    have hheld : ∀ r ∈ held, Genuine chunks parse r := hwsound.1
    obtain ⟨hsound, hsame⟩ := @claim_sound _ chunks parse s.shared.cursor _ hheld
    refine h.put hw (Nat.le_succ _) (fun _ h => by cases h) hsound (Or.inl fun r hr => ?_)
      (fun _ hv => Or.inl hv) ?_ ?_
    · rw [hsame]
      exact hr
    · rintro k failure - hmem (hmem' | hfalse)
      · exact absurd hmem' hmem
      · exact hfalse.elim
    · intro k failure hk hlow hhigh
      obtain rfl : k = s.shared.cursor := Nat.le_antisymm (Nat.le_of_lt_succ hhigh) hlow
      obtain ⟨b, hb, -⟩ := hk.fails
      refine Or.inr ?_
      unfold IndexWorker.claim
      rw [hb]
  | checking i b held =>
    cases hmove
    obtain ⟨hkeeps, hb⟩ := hwsound
    refine h.put hw (Nat.le_refl _) (fun _ h => by cases h) (check_sound hkeeps hb _)
      (check_held i b held _) (fun _ hv => Or.inl hv) ?_ (fun _ h1 h2 => absurd h1 (Nat.not_le_of_lt h2))
    rintro k failure hk hmem (hmem' | rfl)
    · exact absurd hmem' hmem
    rcases hfenced : isFenced b.byte s.shared.barrier[a.seen]? with _ | _
    · left
      obtain ⟨b', hb', hr⟩ := hk.fails
      obtain rfl := Option.some.inj (hb.symm.trans hb')
      unfold IndexWorker.check
      rw [if_neg (by rw [hfenced]; exact Bool.false_ne_true), hr]
      simp only
      rcases failure.fault? with _ | fault
      · exact Or.inr rfl
      · exact Or.inr trivial
    · -- the fence is the first failure itself, which a thread keeps
      rcases hseen : s.shared.barrier[a.seen]? with _ | v
      · rw [hseen] at hfenced; cases hfenced
      rw [hseen] at hfenced
      obtain ⟨failure', hbyte, hgenuine, v', hv', hkept⟩ := h.fence v (List.mem_of_getElem? hseen)
      obtain rfl := eq_of_fenced ho hk hb hgenuine (by rw [hbyte]; simpa [isFenced] using hfenced)
      refine Or.inr ⟨v', hv', ?_, covers_of_kept hkept⟩
      rintro rfl
      rcases hkept with hmem' | ⟨fault, hfault⟩
      · exact hmem hmem'
      · cases hfault
  | fencing failure held =>
    cases hmove
    obtain ⟨hkeeps, hgenuine⟩ := hwsound
    refine h.put hw (Nat.le_refl _) (fun _ h => by cases h) ⟨fun r hmem => ?_, trivial⟩
      (Or.inl fun _ hr => List.mem_append_left _ hr) (fun v hv => ?_) ?_
      (fun _ h1 h2 => absurd h1 (Nat.not_le_of_lt h2))
    · rcases List.mem_append.mp hmem with hmem | hmem
      · exact hkeeps r hmem
      · obtain rfl := List.mem_singleton.mp hmem
        exact hgenuine
    · rcases Unordered.mem_fence hv with hv | rfl
      · exact Or.inl hv
      · exact Or.inr ⟨failure, rfl, List.mem_append_right _ (List.mem_singleton_self _)⟩
    · rintro k failure' - hmem (hmem' | rfl)
      · exact absurd hmem' hmem
      · exact Or.inl (Or.inl (List.mem_append_right _ (List.mem_singleton_self _)))
  | returned held => cases hmove
  | aborted fault => cases hmove

theorem spawn_inv (n : ℕ) : Inv chunks parse (IndexSystem.spawn n) := by
  constructor
  · intro w hw
    obtain ⟨-, rfl⟩ := List.mem_replicate.mp hw
    exact ⟨nofun, trivial⟩
  · exact fun _ hv => absurd hv List.not_mem_nil
  · exact fun _ hk => absurd hk (Nat.not_lt_zero _)

/-! ## Accounts -/

/-- The chunks that a thread has read or is to read. -/
def IndexWorker.claims (w : IndexWorker α) : List ℕ :=
  (w.held.filterMap IndexSystem.chunk?).map (·.1) ++
    match w with
    | .checking i _ _ => [i]
    | _ => []

/-- One thread takes over what a list holds. -/
theorem claims_set {ws : List (IndexWorker α)} {i : ℕ} {w w' : IndexWorker α} {l : List ℕ}
    (hi : ws[i]? = some w) (h : w'.claims.Perm (w.claims ++ l)) :
    ((ws.set i w').flatMap IndexWorker.claims).Perm (ws.flatMap IndexWorker.claims ++ l) := by
  obtain ⟨rest, hself, hset⟩ := Pool.flatMap_set IndexWorker.claims hi
  refine (hset w').trans ((h.append_right rest).trans ?_)
  refine List.Perm.trans ?_ (hself.symm.append_right l)
  rw [List.append_assoc, List.append_assoc]
  exact List.perm_append_comm.append_left _

/-- Where no chunk fails, every chunk that was claimed has one thread. -/
def Accounted (chunks : List Boundary) (s : IndexSystem α) : Prop :=
  (s.workers.flatMap IndexWorker.claims).Perm (List.range (min s.shared.cursor chunks.length))

theorem keeps_accounted (ho : Orderly chunks parse)
    (hall : ∀ i failure, ¬ Ends chunks parse i (.error failure)) :
    Schedule.Keeps (IndexSystem.step chunks parse)
      fun s => Inv chunks parse s ∧ Accounted chunks s := by
  rintro s s' a ⟨h, hs⟩ hstep
  refine ⟨keeps_inv ho h hstep, ?_⟩
  obtain ⟨w, shared, w', hw, hmove, rfl⟩ := Pool.step_cases hstep
  have hwsound := h.sound w (List.mem_of_getElem? hw)
  unfold Accounted at hs ⊢
  cases w with
  | claiming held =>
    cases hmove
    unfold Shared.claim
    simp only
    rcases hb : chunks[s.shared.cursor]? with _ | b
    · have hle := List.getElem?_eq_none_iff.mp hb
      have hclaims : (IndexWorker.claim chunks s.shared.cursor held).claims.Perm
          ((IndexWorker.claiming held).claims ++ []) := by
        unfold IndexWorker.claim
        rw [hb, List.append_nil]
        exact List.Perm.refl _
      have := claims_set hw hclaims
      rw [List.append_nil] at this
      rw [Nat.min_eq_right (by omega)]
      rw [Nat.min_eq_right hle] at hs
      exact this.trans hs
    · have hlt := (List.getElem?_eq_some_iff.mp hb).1
      have hclaims : (IndexWorker.claim chunks s.shared.cursor held).claims.Perm
          ((IndexWorker.claiming held).claims ++ [s.shared.cursor]) := by
        unfold IndexWorker.claim IndexWorker.claims
        rw [hb, List.append_nil]
        exact List.Perm.refl _
      rw [Nat.min_eq_left (by omega), List.range_succ]
      rw [Nat.min_eq_left (by omega)] at hs
      exact (claims_set hw hclaims).trans (hs.append_right _)
  | checking i b held =>
    cases hmove
    obtain ⟨-, hb⟩ := hwsound
    -- nothing is fenced, and nothing fails
    have hfree : isFenced b.byte s.shared.barrier[a.seen]? = false := by
      rcases hseen : s.shared.barrier[a.seen]? with _ | v
      · rfl
      obtain ⟨failure, -, ⟨-, j, hj⟩, -⟩ := h.fence v (List.mem_of_getElem? hseen)
      exact absurd hj (hall j failure)
    have hclaims : (IndexWorker.check parse i b held s.shared.barrier[a.seen]?).claims.Perm
        ((IndexWorker.checking i b held).claims ++ []) := by
      unfold IndexWorker.check
      rw [if_neg (by rw [hfree]; exact Bool.false_ne_true), List.append_nil]
      rcases hr : parse i b with failure | positions
      · exact absurd ⟨b, hb, hr⟩ (hall i failure)
      · unfold IndexWorker.claims
        simp only [IndexWorker.held, List.filterMap_append, List.map_append, List.append_nil]
        exact List.Perm.refl _
    have := claims_set hw hclaims
    rw [List.append_nil] at this
    exact this.trans hs
  | fencing failure held =>
    obtain ⟨-, -, i, hi⟩ := hwsound
    exact absurd hi (hall i failure)
  | returned held => cases hmove
  | aborted fault => cases hmove

theorem spawn_accounted (chunks : List Boundary) (n : ℕ) :
    Accounted chunks (IndexSystem.spawn n : IndexSystem α) := by
  have hnone : (List.replicate n (IndexWorker.claiming [] : IndexWorker α)).flatMap
      IndexWorker.claims = [] := by
    refine List.flatMap_eq_nil_iff.mpr fun w hw => ?_
    obtain ⟨-, rfl⟩ := List.mem_replicate.mp hw
    rfl
  unfold Accounted IndexSystem.spawn
  rw [hnone, Nat.zero_min]
  exact List.Perm.refl _

/-! ## The chunks one after another -/

theorem first_or_none (chunks : List Boundary) (parse : ℕ → Boundary → Except Failure α) :
    (∃ k failure, FirstFails chunks parse k failure) ∨
      ∀ i failure, ¬ Ends chunks parse i (.error failure) := by
  classical
  by_cases h : ∃ i failure, Ends chunks parse i (.error failure)
  · obtain ⟨failure, hfails⟩ := Nat.find_spec h
    refine Or.inl ⟨Nat.find h, failure, hfails, fun j hj => ?_⟩
    obtain ⟨b, hb, -⟩ := hfails
    have hlen := (List.getElem?_eq_some_iff.mp hb).1
    have hat : chunks[j]? = some chunks[j] := List.getElem?_eq_getElem (Nat.lt_trans hj hlen)
    rcases hr : parse j chunks[j] with failure' | a
    · exact absurd ⟨failure', _, hat, hr⟩ (Nat.find_min h hj)
    · exact ⟨a, _, hat, hr⟩
  · push Not at h
    exact Or.inr h

theorem sequence_fails {k : ℕ} {failure : Failure} (hk : FirstFails chunks parse k failure) :
    ∀ (rest : List Boundary) (i : ℕ), chunks.drop i = rest → i ≤ k →
      sequence parse i rest = .error failure
  | [], i, hdrop, hik => by
    obtain ⟨b, hb, -⟩ := hk.fails
    have hlen := (List.getElem?_eq_some_iff.mp hb).1
    have := List.drop_eq_nil_iff.mp hdrop
    omega
  | b :: rest, i, hdrop, hik => by
    have hb : chunks[i]? = some b := Window.getElem?_of_drop (u := []) hdrop rfl
    have hrest : chunks.drop (i + 1) = rest := Window.drop_of_drop (u := [b]) hdrop rfl
    rw [sequence]
    rcases hr : parse i b with failure' | positions
    · obtain rfl : i = k := Nat.le_antisymm hik (hk.le ⟨b, hb, hr⟩)
      obtain rfl := Except.error.inj (hk.fails.eq ⟨b, hb, hr⟩)
      rfl
    · have hlt : i < k := by
        refine Nat.lt_of_le_of_ne hik ?_
        rintro rfl
        have := hk.fails.eq ⟨b, hb, hr⟩
        cases this
      simp only [sequence_fails hk rest (i + 1) hrest hlt]
      rfl

theorem sequence_done (hall : ∀ i failure, ¬ Ends chunks parse i (.error failure)) :
    ∀ (rest : List Boundary) (i : ℕ), chunks.drop i = rest →
      ∃ as, sequence parse i rest = .ok as ∧ as.length = rest.length ∧
        ∀ j a, Ends chunks parse (i + j) (.ok a) → as[j]? = some a
  | [], i, hdrop => by
    refine ⟨[], rfl, rfl, fun j a ⟨b, hb, _⟩ => ?_⟩
    have hlen := (List.getElem?_eq_some_iff.mp hb).1
    have := List.drop_eq_nil_iff.mp hdrop
    omega
  | b :: rest, i, hdrop => by
    have hb : chunks[i]? = some b := Window.getElem?_of_drop (u := []) hdrop rfl
    have hrest : chunks.drop (i + 1) = rest := Window.drop_of_drop (u := [b]) hdrop rfl
    obtain ⟨as, hrun, hlen, has⟩ := sequence_done hall rest (i + 1) hrest
    rw [sequence]
    rcases hr : parse i b with failure | positions
    · exact absurd ⟨b, hb, hr⟩ (hall i failure)
    refine ⟨positions :: as, ?_, congrArg Nat.succ hlen, fun j a hj => ?_⟩
    · simp only [hrun]
      rfl
    · cases j with
      | zero =>
        have := hj.eq ⟨b, hb, hr⟩
        rw [Except.ok.inj this]
        rfl
      | succ j =>
        rw [List.getElem?_cons_succ]
        refine has j a ?_
        rwa [Nat.add_assoc, Nat.add_comm 1 j]

/-! ## What a run comes to -/

/-- The results of the chunks, sorted by their indices. -/
theorem sorted_results {l : List (ℕ × α)} {as : List α}
    (hperm : (l.map (·.1)).Perm (List.range as.length)) (hmem : ∀ p ∈ l, as[p.1]? = some p.2) :
    (l.mergeSort fun a b => a.1 ≤ b.1).map (·.2) = as := by
  have hsorted : (l.mergeSort fun a b => a.1 ≤ b.1).Pairwise fun a b => decide (a.1 ≤ b.1) = true := by
    refine List.pairwise_mergeSort (fun a b c => ?_) (fun a b => ?_) l
    · simp only [decide_eq_true_eq]
      exact Nat.le_trans
    · simp only [Bool.or_eq_true, decide_eq_true_eq]
      exact Nat.le_total a.1 b.1
  have hl := List.mergeSort_perm l fun a b : ℕ × α => decide (a.1 ≤ b.1)
  generalize (l.mergeSort fun a b => a.1 ≤ b.1) = l' at hsorted hl ⊢
  have hindices : l'.map (·.1) = List.range as.length := by
    refine List.Perm.eq_of_pairwise (fun a b _ _ => Nat.le_antisymm) ?_ ?_
      ((hl.map _).trans hperm)
    · refine List.pairwise_map.mpr (hsorted.imp fun h => ?_)
      simpa using h
    · exact List.pairwise_le_range
  refine List.ext_getElem? fun i => ?_
  have hi := congrArg (·[i]?) hindices
  simp only [List.getElem?_map] at hi ⊢
  rcases hp : l'[i]? with _ | p
  · rw [hp, Option.map_none] at hi
    have := List.getElem?_eq_none_iff.mp hi.symm
    rw [List.length_range] at this
    rw [List.getElem?_eq_none this]
    rfl
  · rw [hp, Option.map_some] at hi
    obtain ⟨hlt, hat⟩ := List.getElem?_eq_some_iff.mp hi.symm
    rw [List.getElem_range] at hat
    rw [Option.map_some, ← hmem p (hl.mem_iff.mp (List.mem_of_getElem? hp)), hat]

/-- The error that a result is. -/
def error? : Except Failure (ℕ × α) → Option Failure
  | .ok _ => none
  | .error failure => some failure

theorem mem_error? {rs : List (Except Failure (ℕ × α))} {failure : Failure} :
    some failure ∈ none :: rs.map error? ↔ .error failure ∈ rs := by
  have herror : ∀ r : Except Failure (ℕ × α), error? r = some failure ↔ r = .error failure := by
    rintro (f | chunk) <;> simp [error?]
  simp [herror]

/-- A build keeps an error of the lowest byte. -/
theorem foldl_keepEarliest (rs : List (Except Failure (ℕ × α))) :
    rs.foldl IndexSystem.keepEarliestFailure none =
      (rs.map error?).foldl (Pool.keepLeast Failure.byte) none := by
  have hkeep : IndexSystem.keepEarliestFailure = fun kept (r : Except Failure (ℕ × α)) =>
      Pool.keepLeast Failure.byte kept (error? r) := by
    funext kept r
    rcases r with f | chunk <;> rcases kept with _ | g <;> rfl
  rw [hkeep, List.foldl_map]

/-- **Every schedule** comes to what the chunks come to one after another. -/
theorem outcome_sequence (ho : Orderly chunks parse) (h : Inv chunks parse s)
    (haccounts : (∀ i failure, ¬ Ends chunks parse i (.error failure)) → Accounted chunks s)
    (hworkers : s.workers ≠ []) {o : Except Failure (List α)} (hout : s.outcome = some o) :
    o = sequence parse 0 chunks := by
  unfold IndexSystem.outcome at hout
  split_ifs at hout with hdone
  have hfinished : ∀ w ∈ s.workers, IndexWorker.finished w = true := List.all_eq_true.mp hdone
  have hresults : ∀ r ∈ s.workers.flatMap IndexWorker.results, Genuine chunks parse r := by
    intro r hr
    obtain ⟨w, hw, hr⟩ := List.mem_flatMap.mp hr
    cases w with
    | returned held => exact (h.sound _ hw).1 r hr
    | _ => exact absurd hr List.not_mem_nil
  rcases hfault : s.workers.findSome? IndexWorker.fault? with _ | fault <;> rw [hfault] at hout
  · -- every thread has returned
    have hreturned : ∀ w ∈ s.workers, ∃ held, w = .returned held := by
      intro w hw
      have hnone := List.findSome?_eq_none_iff.mp hfault w hw
      have hfin := hfinished w hw
      cases w with
      | returned held => exact ⟨held, rfl⟩
      | aborted fault => cases hnone
      | claiming _ => cases hfin
      | checking _ _ _ => cases hfin
      | fencing _ _ => cases hfin
    have hcursor : chunks.length < s.shared.cursor := by
      obtain ⟨w, ws, hws⟩ := List.exists_cons_of_ne_nil hworkers
      have hw : w ∈ s.workers := hws ▸ List.mem_cons_self
      obtain ⟨held, rfl⟩ := hreturned w hw
      exact (h.sound _ hw).2
    have hkept := Pool.foldl_keepLeast Failure.byte
      ((s.workers.flatMap IndexWorker.results).map error?) none
    rw [← foldl_keepEarliest] at hkept
    simp only [mem_error?] at hkept
    obtain ⟨k, failure, hk⟩ | hall := first_or_none chunks parse
    · obtain ⟨b, hb, -⟩ := hk.fails
      have hclaimed := Nat.lt_trans (List.getElem?_eq_some_iff.mp hb).1 hcursor
      obtain ⟨w, hw, hcovers⟩ := h.covered hk hclaimed
      obtain ⟨held, rfl⟩ := hreturned w hw
      have hmem : .error failure ∈ s.workers.flatMap IndexWorker.results :=
        List.mem_flatMap.mpr ⟨_, hw, hcovers.resolve_right id⟩
      have hlive : failure.fault? = none := (hresults _ hmem).1
      rw [sequence_fails hk chunks 0 rfl (Nat.zero_le k)]
      rcases hfold : (s.workers.flatMap IndexWorker.results).foldl
        IndexSystem.keepEarliestFailure none with _ | g <;> rw [hfold] at hkept <;>
        simp only [hfold] at hout
      · exact absurd hmem (hkept failure)
      · obtain ⟨hfrom, hmin⟩ := hkept
        obtain ⟨-, j, hj⟩ := hresults _ hfrom
        have hg : g = failure := by
          rcases Nat.lt_or_eq_of_le (hk.le hj) with hlt | rfl
          · obtain ⟨-, hahead⟩ := ho.ahead k failure hk hlive j g hlt hj
            exact hahead.resolve_left (Nat.not_lt_of_le (hmin failure hmem))
          · exact Except.error.inj (hj.eq hk.fails)
        rw [← Option.some.inj hout, hg]
    · obtain ⟨as, hrun, hlen, has⟩ := sequence_done hall chunks 0 rfl
      have hnone : (s.workers.flatMap IndexWorker.results).foldl
          IndexSystem.keepEarliestFailure none = none := by
        rcases hfold : (s.workers.flatMap IndexWorker.results).foldl
          IndexSystem.keepEarliestFailure none with _ | g
        · rfl
        rw [hfold] at hkept
        obtain ⟨-, j, hj⟩ := hresults _ hkept.1
        exact absurd hj (hall j g)
      simp only [hnone] at hout
      rw [← Option.some.inj hout, hrun]
      refine congrArg Except.ok (sorted_results ?_ ?_)
      · -- the results are those of the chunks that were claimed
        have hperm := haccounts hall
        unfold Accounted at hperm
        rw [Nat.min_eq_right (Nat.le_of_lt hcursor), ← hlen] at hperm
        refine List.Perm.trans (List.Perm.of_eq ?_) hperm
        rw [List.filterMap_flatMap, List.map_flatMap]
        refine List.flatMap_congr fun w hw => ?_
        obtain ⟨held, rfl⟩ := hreturned w hw
        exact (List.append_nil _).symm
      · rintro ⟨j, a⟩ hp
        obtain ⟨r, hr, hchunk⟩ := List.mem_filterMap.mp hp
        cases r with
        | ok chunk =>
          obtain rfl := Option.some.inj hchunk
          have hj : Ends chunks parse j (.ok a) := hresults _ hr
          exact has j a (by rwa [Nat.zero_add])
        | error failure => cases hchunk
  · -- a thread has panicked, so the first failure is a panic
    obtain ⟨w, hw, hwf⟩ := List.exists_of_findSome?_eq_some hfault
    obtain ⟨j, failure', hj, hf'⟩ : ∃ j failure', Ends chunks parse j (.error failure') ∧
        failure'.fault? = some fault := by
      cases w with
      | aborted fault' =>
        obtain rfl := Option.some.inj hwf
        exact (h.sound _ hw).2
      | _ => cases hwf
    obtain ⟨k, failure, hk⟩ | hall := first_or_none chunks parse
    · rw [sequence_fails hk chunks 0 rfl (Nat.zero_le k), ← Option.some.inj hout]
      obtain rfl := ho.panic j failure' fault hj hf'
      rcases hf : failure.fault? with _ | fault
      · rcases Nat.lt_or_eq_of_le (hk.le hj) with hlt | rfl
        · rw [(ho.ahead k failure hk hf j failure' hlt hj).1] at hf'
          cases hf'
        · obtain rfl := Except.error.inj (hj.eq hk.fails)
          rw [hf] at hf'
          cases hf'
      · obtain rfl := ho.panic k failure fault hk.fails hf
        rw [fault?_eq hf]
    · exact absurd hj (hall j failure')

/-! ## Progress -/

/-- How far a thread is from its next claim or its end. -/
def rank : IndexWorker α → ℕ
  | .claiming _ => 1
  | .checking .. => 3
  | .fencing .. => 2
  | .returned _ | .aborted _ => 0

/-- What the chunks that are left may take. -/
def left (chunks : List Boundary) (shared : Shared) : ℕ := 3 * (chunks.length - shared.cursor)

/-- A step of a thread takes it nearer to its end, or a chunk from those that are left. -/
theorem step_rank {seen : ℕ} {shared shared' : Shared} {w w' : IndexWorker α}
    (hmove : IndexWorker.step chunks parse seen shared w = some (shared', w')) :
    left chunks shared' + rank w' < left chunks shared + rank w := by
  cases w with
  | claiming held =>
    cases hmove
    have hclaiming : rank (.claiming held : IndexWorker α) = 1 := rfl
    unfold left Shared.claim
    simp only
    rcases hb : chunks[shared.cursor]? with _ | b
    · have hle := List.getElem?_eq_none_iff.mp hb
      have hclaim : rank (IndexWorker.claim chunks shared.cursor held) = 0 := by
        unfold IndexWorker.claim
        rw [hb]
        rfl
      omega
    · have hlt := (List.getElem?_eq_some_iff.mp hb).1
      have hclaim : rank (IndexWorker.claim chunks shared.cursor held) = 3 := by
        unfold IndexWorker.claim
        rw [hb]
        rfl
      omega
  | checking i b held =>
    cases hmove
    have hcheck : rank (IndexWorker.check parse i b held shared.barrier[seen]?) ≤ 2 := by
      unfold IndexWorker.check
      by_cases hfenced : isFenced b.byte shared.barrier[seen]? = true
      · rw [if_pos hfenced]
        exact Nat.le_succ 1
      rw [if_neg hfenced]
      rcases parse i b with failure | positions
      · rcases hf : failure.fault? with _ | fault
        · simp only [hf]
          exact Nat.le_refl 2
        · simp only [hf]
          exact Nat.zero_le 2
      · exact Nat.le_succ 1
    exact Nat.add_lt_add_left (Nat.lt_succ_of_le hcheck) _
  | fencing failure held =>
    cases hmove
    exact Nat.lt_succ_self _
  | returned held => cases hmove
  | aborted fault => cases hmove

variable (chunks parse) in
/-- **Every step brings a run nearer to its end.** -/
theorem ranked : Schedule.Ranked (IndexSystem.step chunks parse) (fun _ => True)
    (Pool.measure (left chunks) rank) where
  keeps _ _ _ _ _ := trivial
  nearer _ _ _ _ hstep := Pool.step_measure (fun _ _ _ _ hmove => step_rank hmove) hstep

/-- While a thread has not ended, it can take a step. -/
theorem step_of_unfinished (chunks : List Boundary) (parse : ℕ → Boundary → Except Failure α)
    (h : ¬ ∃ o, s.outcome = some o) : ∃ a s', IndexSystem.step chunks parse s a = some s' := by
  have hall : ¬ s.workers.all IndexWorker.finished = true := fun hall => by
    refine h (Option.ne_none_iff_exists'.mp ?_)
    unfold IndexSystem.outcome
    rw [if_pos hall]
    split
    · exact nofun
    · simp only
      split <;> exact nofun
  rw [List.all_eq_true] at hall
  push Not at hall
  obtain ⟨w, hmem, hw⟩ := hall
  refine Pool.exists_step hmem 0 ?_
  cases w with
  | returned held => exact absurd rfl hw
  | aborted fault => exact absurd rfl hw
  | claiming held => exact nofun
  | checking i b held => exact nofun
  | fencing failure held => exact nofun

end CsvIndex

end Coseva
