/-
  Tables probed along a chain of keys (open addressing): a name is filed at the
  first key of its chain that is free or already holds it.

  * `find`: the walk along a chain;
  * `Files`: the table files a partial map from names to values;
  * `Files.find_value`, `Files.insert`: a lookup and an insertion, as those of
    the map;
  * `Files.exists_free`: a walk ends once the chain is longer than the map.
-/
import Mathlib.Data.Fintype.Card
import Mathlib.Data.Nat.Find
import Mathlib.Logic.Function.Iterate
import Mathlib.Tactic.Common

namespace Probe

variable {K V N : Type} (next : K → K) (owner : V → Option N)

/-- The first key of the chain from `key` on that is free or holds `name`;
    `none` when the first `fuel` keys are taken by others. -/
def find [DecidableEq N] (table : K → Option V) (name : N) : (fuel : ℕ) → K → Option K
  | 0, _ => none
  | fuel + 1, key =>
    match table key with
    | none => some key
    | some v => if owner v = some name then some key else find table name fuel (next key)

variable {next owner} {table : K → Option V} {name : N}

/-- The walk stops at the first key that is free or holds the name. -/
theorem find_of_stop [DecidableEq N] {j : ℕ} :
    ∀ {fuel : ℕ} {key : K}, j < fuel →
      (∀ v, table (next^[j] key) = some v → owner v = some name) →
      (∀ i < j, ∃ v, table (next^[i] key) = some v ∧ owner v ≠ some name) →
      find next owner table name fuel key = some (next^[j] key) := by
  induction j with
  | zero =>
    rintro (_ | fuel) key hj hstop -
    · cases hj
    · rw [find]
      rcases hkey : table key with _ | v
      · rfl
      · simp only
        rw [if_pos (hstop v hkey)]
        rfl
  | succ j ih =>
    rintro (_ | fuel) key hj hstop hpass
    · cases hj
    · obtain ⟨v, hkey, hother⟩ := hpass 0 (Nat.succ_pos j)
      rw [find, show table key = some v from hkey]
      simp only
      rw [if_neg hother]
      exact ih (Nat.lt_of_succ_lt_succ hj) hstop fun i hi => hpass (i + 1) (Nat.succ_lt_succ hi)

variable (next owner) (hash : N → K)

/-- The table files the map `value`: it holds the values of the map, each one
    along the chain of its name. -/
structure Files (table : K → Option V) (value : N → Option V) : Prop where
  owned : ∀ {k v}, table k = some v → ∃ name, owner v = some name ∧ value name = some v
  chain : ∀ {name v}, value name = some v → owner v = some name ∧
    ∃ j, table (next^[j] (hash name)) = some v ∧ ∀ i < j, table (next^[i] (hash name)) ≠ none
  unique : ∀ {k k' v}, table k = some v → table k' = some v → k = k'

namespace Files

variable {next owner hash} {value : N → Option V}

/-- The table without a key files the map without a name. -/
theorem empty : Files next owner hash (fun _ => none) (fun _ => none) where
  owned := by intro k v h; cases h
  chain := by intro name v h; cases h
  unique := by intro k k' v h; cases h

variable (h : Files next owner hash table value)

include h

/-- A key of the name's chain before `j` that holds another name. -/
theorem other {j : ℕ} {w : V} (hw : value name = some w)
    (hj : table (next^[j] (hash name)) = some w)
    (hfirst : ∀ i < j, next^[i] (hash name) ≠ next^[j] (hash name))
    {i : ℕ} (hi : i < j) {v : V} (hv : table (next^[i] (hash name)) = some v) :
    owner v ≠ some name := by
  intro howner
  obtain ⟨name', howner', hvalue⟩ := h.owned hv
  obtain rfl : name' = name := Option.some.inj (howner'.symm.trans howner)
  obtain rfl : v = w := Option.some.inj (hvalue.symm.trans hw)
  exact hfirst i hi (h.unique hv hj)

/-- **A walk finds the value of its name**, or the free key where it belongs. -/
theorem find_value [DecidableEq N] {fuel : ℕ} (hfree : ∃ j < fuel, table (next^[j] (hash name)) = none) :
    ∃ k, find next owner table name fuel (hash name) = some k ∧ table k = value name ∧
      ∃ j, next^[j] (hash name) = k ∧ ∀ i < j, table (next^[i] (hash name)) ≠ none := by
  classical
  rcases hvalue : value name with _ | w
  · -- an absent name: every key before the free one holds another
    have hleast := Nat.find_spec hfree
    refine ⟨_, find_of_stop hleast.1 (fun v hv => absurd (hleast.2.symm.trans hv) nofun)
      fun i hi => ?_, hleast.2, _, rfl, fun i hi hnone =>
        Nat.find_min hfree hi ⟨Nat.lt_trans hi hleast.1, hnone⟩⟩
    rcases hkey : table (next^[i] (hash name)) with _ | v
    · exact absurd ⟨Nat.lt_trans hi hleast.1, hkey⟩ (Nat.find_min hfree hi)
    · refine ⟨v, rfl, fun howner => ?_⟩
      obtain ⟨name', howner', hname⟩ := h.owned hkey
      obtain rfl : name' = name := Option.some.inj (howner'.symm.trans howner)
      rw [hvalue] at hname
      cases hname
  · -- a present one: the first key of the chain that holds it
    obtain ⟨howner, j, hj, htaken⟩ := h.chain hvalue
    have hex : ∃ j, table (next^[j] (hash name)) = some w := ⟨j, hj⟩
    have hleast := Nat.find_spec hex
    have hle : Nat.find hex ≤ j := Nat.find_min' hex hj
    obtain ⟨m, hm, hnone⟩ := hfree
    have hlt : Nat.find hex < fuel := by
      by_contra hge
      exact htaken m (by omega) hnone
    refine ⟨_, find_of_stop hlt (fun v hv => ?_) fun i hi => ?_, hleast, _, rfl,
      fun i hi => htaken i (Nat.lt_of_lt_of_le hi hle)⟩
    · rw [hleast] at hv
      rw [← Option.some.inj hv]
      exact howner
    · rcases hkey : table (next^[i] (hash name)) with _ | v
      · exact absurd hkey (htaken i (by omega))
      · refine ⟨v, rfl, h.other hvalue hleast (fun i hi heq => ?_) hi hkey⟩
        exact Nat.find_min hex hi (heq ▸ hleast)

/-- **An insertion** at the key a walk finds files the map with the new value. -/
theorem insert [DecidableEq K] [DecidableEq N] {fuel : ℕ}
    (hfree : ∃ j < fuel, table (next^[j] (hash name)) = none) {v : V} (howner : owner v = some name) (hnew : ∀ k, table k ≠ some v) :
    ∃ k, find next owner table name fuel (hash name) = some k ∧ table k = value name ∧
      Files next owner hash (Function.update table k (some v))
        (Function.update value name (some v)) := by
  obtain ⟨k, hfind, hk, hchain⟩ := h.find_value hfree
  refine ⟨k, hfind, hk, ?_, ?_, ?_⟩
  · intro k' v' hv'
    rcases eq_or_ne k' k with rfl | hne
    · rw [Function.update_self] at hv'
      obtain rfl := Option.some.inj hv'
      exact ⟨name, howner, Function.update_self ..⟩
    · rw [Function.update_of_ne hne] at hv'
      obtain ⟨name', howner', hvalue⟩ := h.owned hv'
      refine ⟨name', howner', ?_⟩
      rw [Function.update_of_ne, hvalue]
      rintro rfl
      exact hne (h.unique hv' (hk.trans hvalue))
  · intro name' v' hv'
    rcases eq_or_ne name' name with rfl | hne
    · rw [Function.update_self] at hv'
      obtain rfl := Option.some.inj hv'
      obtain ⟨j, hj, htaken⟩ := hchain
      refine ⟨howner, j, by rw [hj, Function.update_self], fun i hi => ?_⟩
      rcases eq_or_ne (next^[i] (hash name')) k with hik | hik
      · rw [hik, Function.update_self]
        exact nofun
      · rw [Function.update_of_ne hik]
        exact htaken i hi
    · rw [Function.update_of_ne hne] at hv'
      obtain ⟨howner', j, hj, htaken⟩ := h.chain hv'
      have hjk : next^[j] (hash name') ≠ k := by
        intro hjk
        rw [hjk, hk] at hj
        exact hne (Option.some.inj (howner'.symm.trans (h.chain hj).1))
      refine ⟨howner', j, by rw [Function.update_of_ne hjk, hj], fun i hi => ?_⟩
      rcases eq_or_ne (next^[i] (hash name')) k with hik | hik
      · rw [hik, Function.update_self]
        exact nofun
      · rw [Function.update_of_ne hik]
        exact htaken i hi
  · intro k₁ k₂ v' h₁ h₂
    by_cases hne₁ : k₁ = k <;> by_cases hne₂ : k₂ = k
    · rw [hne₁, hne₂]
    · subst hne₁
      rw [Function.update_self] at h₁
      rw [Function.update_of_ne hne₂] at h₂
      exact absurd (h₂.trans h₁.symm) (hnew k₂)
    · subst hne₂
      rw [Function.update_of_ne hne₁] at h₁
      rw [Function.update_self] at h₂
      exact absurd (h₁.trans h₂.symm) (hnew k₁)
    · rw [Function.update_of_ne hne₁] at h₁
      rw [Function.update_of_ne hne₂] at h₂
      exact h.unique h₁ h₂

/-- **A walk ends**: a chain of more keys than the map has names has a free one. -/
theorem exists_free (names : Finset N) (hnames : ∀ name, value name ≠ none → name ∈ names)
    {fuel : ℕ} (hcard : names.card < fuel) {key : K}
    (hchain : ∀ i < fuel, ∀ j < fuel, next^[i] key = next^[j] key → i = j) :
    ∃ j < fuel, table (next^[j] key) = none := by
  by_contra hall
  push Not at hall
  -- were all of them taken, two would hold the value of one name
  have howner : ∀ j : Fin fuel, ∃ name ∈ names,
      ∃ v, table (next^[j] key) = some v ∧ value name = some v := by
    intro j
    obtain ⟨v, hv⟩ := Option.ne_none_iff_exists'.mp (hall j j.isLt)
    obtain ⟨name, -, hvalue⟩ := h.owned hv
    exact ⟨name, hnames name (by rw [hvalue]; exact nofun), v, hv, hvalue⟩
  choose name hname v hv hvalue using howner
  obtain ⟨i, -, j, -, hne, heq⟩ := Finset.exists_ne_map_eq_of_card_lt_of_maps_to
    (s := Finset.univ) (t := names) (f := name) (by rwa [Finset.card_univ, Fintype.card_fin])
    fun j _ => hname j
  have hsame : v i = v j :=
    Option.some.inj ((hvalue i).symm.trans (by rw [heq]; exact hvalue j))
  exact hne (Fin.ext (hchain i i.isLt j j.isLt (h.unique (hv i) (hsame ▸ hv j))))

end Files

end Probe
