import Mathlib.Algebra.BigOperators.Group.Finset.Basic
import Mathlib.Data.Finmap

set_option relaxedAutoImplicit false
set_option autoImplicit false

/-!
# Finite maps

A hash map is modelled by Mathlib's `Finmap`, whose equality is equality of contents. This
file has lookups after an update, updates of one entry in place, and the sum of what is read
from the values, which maps of counters need.

## Main definitions

* `FMap` — finite maps with values in one type.
* `FMap.upsert`, `FMap.adjust` — an entry changes in place, with or without a first value.
* `FMap.mapValues` — every value changes.
* `FMap.total` — the sum of what a function reads from the values.
* `FMap.sum` — the sum of the values of a map of counters.

## Main results

* `FMap.total_insert`, `FMap.total_erase` — the sum under an update.
* `FMap.total_upsert_add`, `FMap.total_adjust_add`, `FMap.total_adjust_sub` — the sum when an
  entry grows or shrinks in place.
* `FMap.insert_of_lookup`, `FMap.erase_insert_of_lookup` — updates that change nothing.
-/

/-- Finite maps from `K` to `V`. -/
abbrev FMap (K V : Type*) := Finmap fun _ : K => V

namespace FMap

variable {K V : Type*} [DecidableEq K]

/-- Lookup after an insertion, as a case distinction. -/
theorem lookup_insert_eq_ite (m : FMap K V) (k a : K) (v : V) :
    (Finmap.insert k v m).lookup a = if a = k then some v else m.lookup a := by
  split_ifs with h
  · rw [h, Finmap.lookup_insert]
  · exact Finmap.lookup_insert_of_ne m h

/-- Lookup after an erasure, as a case distinction. -/
theorem lookup_erase_eq_ite (m : FMap K V) (k a : K) :
    (Finmap.erase k m).lookup a = if a = k then none else m.lookup a := by
  split_ifs with h
  · rw [h, Finmap.lookup_erase]
  · exact Finmap.lookup_erase_ne h

/-- The keys after an insertion. -/
theorem keys_insert (m : FMap K V) (k : K) (v : V) :
    (Finmap.insert k v m).keys = insert k m.keys := by
  ext a
  rw [Finmap.mem_keys, Finmap.mem_insert, Finset.mem_insert, Finmap.mem_keys]

/-- Writing to a key that is there keeps the keys. -/
theorem keys_insert_of_mem {m : FMap K V} {k : K} (h : k ∈ m) (v : V) :
    (Finmap.insert k v m).keys = m.keys := by
  rw [keys_insert, Finset.insert_eq_of_mem (Finmap.mem_keys.mpr h)]

/-- Writing back the value a key has changes nothing. -/
theorem insert_of_lookup {m : FMap K V} {k : K} {v : V} (h : m.lookup k = some v) :
    Finmap.insert k v m = m := by
  apply Finmap.ext_lookup
  intro a
  rw [lookup_insert_eq_ite]
  split_ifs with ha
  · rw [ha, h]
  · rfl

/-- Erasing a freshly inserted key undoes the insertion. -/
theorem erase_insert_of_lookup {m : FMap K V} {k : K} (v : V) (h : m.lookup k = none) :
    Finmap.erase k (Finmap.insert k v m) = m := by
  apply Finmap.ext_lookup
  intro a
  rw [lookup_erase_eq_ite, lookup_insert_eq_ite]
  split_ifs with ha
  · rw [ha, h]
  · rfl

/-- What holds of all keys can be checked. -/
instance decidableBAll (m : FMap K V) (P : K → Prop) [DecidablePred P] :
    Decidable (∀ k ∈ m, P k) :=
  decidable_of_iff (∀ k ∈ m.keys, P k) (forall_congr' fun _ => imp_congr_left Finmap.mem_keys)

/-- What holds of some key can be checked. -/
instance decidableBEx (m : FMap K V) (P : K → Prop) [DecidablePred P] :
    Decidable (∃ k ∈ m, P k) :=
  decidable_of_iff (∃ k ∈ m.keys, P k) (exists_congr fun _ => and_congr_left' Finmap.mem_keys)

/-! ## Updates of one entry -/

/-- The entry of `k` becomes `f` of it, or `v` where there is none. -/
def upsert (m : FMap K V) (k : K) (f : V → V) (v : V) : FMap K V :=
  match m.lookup k with
  | some e => m.insert k (f e)
  | none => m.insert k v

/-- The entry of `k`, if there is one, becomes `f` of it. -/
def adjust (m : FMap K V) (k : K) (f : V → V) : FMap K V :=
  match m.lookup k with
  | some e => m.insert k (f e)
  | none => m

/-- An `upsert` is an insertion. -/
theorem upsert_eq_insert (m : FMap K V) (k : K) (f : V → V) (v : V) :
    upsert m k f v = m.insert k ((m.lookup k).elim v f) := by
  unfold upsert
  cases m.lookup k with
  | none => rfl
  | some e => rfl

/-- Lookup after an `upsert`. -/
theorem lookup_upsert (m : FMap K V) (k a : K) (f : V → V) (v : V) :
    (upsert m k f v).lookup a = if a = k then some ((m.lookup k).elim v f) else m.lookup a := by
  rw [upsert_eq_insert, lookup_insert_eq_ite]

/-- Lookup after an `adjust`. -/
theorem lookup_adjust (m : FMap K V) (k a : K) (f : V → V) :
    (adjust m k f).lookup a = if a = k then (m.lookup k).map f else m.lookup a := by
  unfold adjust
  cases h : m.lookup k with
  | none =>
    split_ifs with ha
    · rw [ha, h, Option.map_none]
    · rfl
  | some e => exact lookup_insert_eq_ite m k a (f e)

/-- Without an entry there is nothing to adjust. -/
theorem adjust_of_notMem {m : FMap K V} {k : K} (h : k ∉ m) (f : V → V) : adjust m k f = m := by
  unfold adjust
  rw [Finmap.lookup_eq_none.mpr h]

/-! ## Changing every value -/

section MapValues

variable {W : Type*}

/-- The entries with `f` of their values. -/
def mapValues (f : V → W) (m : FMap K V) : FMap K W where
  entries := m.entries.map fun e => ⟨e.1, f e.2⟩
  nodupKeys := by
    have h : m.entries.keys.Nodup := m.nodupKeys.nodup_keys
    rw [← Multiset.nodup_keys, Multiset.keys, Multiset.map_map]
    exact h

/-- Lookup among the changed values. -/
@[simp] theorem lookup_mapValues (f : V → W) (m : FMap K V) (k : K) :
    (mapValues f m).lookup k = (m.lookup k).map f := by
  ext w
  rw [Option.map_eq_some_iff, Finmap.lookup_eq_some_iff]
  constructor
  · intro h
    obtain ⟨⟨a, v⟩, hmem, heq⟩ := Multiset.mem_map.mp h
    cases heq
    exact ⟨v, Finmap.lookup_eq_some_iff.mpr hmem, rfl⟩
  · rintro ⟨v, hv, rfl⟩
    exact Multiset.mem_map.mpr ⟨⟨k, v⟩, Finmap.lookup_eq_some_iff.mp hv, rfl⟩

/-- The keys stay. -/
@[simp] theorem keys_mapValues (f : V → W) (m : FMap K V) : (mapValues f m).keys = m.keys := by
  ext k
  rw [Finmap.mem_keys, Finmap.mem_keys, ← Finmap.lookup_isSome, ← Finmap.lookup_isSome,
    lookup_mapValues, Option.isSome_map]

end MapValues

/-! ## Sums over the entries -/

/-- The sum of what `f` reads from the values. -/
def total (f : V → ℕ) (m : FMap K V) : ℕ := ∑ k ∈ m.keys, ((m.lookup k).map f).getD 0

/-- The sum over changed values. -/
@[simp] theorem total_mapValues {W : Type*} (g : W → ℕ) (f : V → W) (m : FMap K V) :
    total g (mapValues f m) = total (g ∘ f) m := by
  simp [total]

/-- The sum over an empty map. -/
@[simp] theorem total_empty (f : V → ℕ) : total f (∅ : FMap K V) = 0 := by simp [total]

/-- Erasing a key takes its value out of the sum. -/
theorem total_erase (f : V → ℕ) (m : FMap K V) (k : K) :
    total f (Finmap.erase k m) + ((m.lookup k).map f).getD 0 = total f m := by
  have hrest : ∑ a ∈ m.keys.erase k, (((Finmap.erase k m).lookup a).map f).getD 0 =
      ∑ a ∈ m.keys.erase k, ((m.lookup a).map f).getD 0 := by
    refine Finset.sum_congr rfl fun a ha => ?_
    rw [Finmap.lookup_erase_ne (Finset.mem_erase.mp ha).1]
  unfold total
  rw [Finmap.keys_erase, hrest]
  by_cases hk : k ∈ m.keys
  · exact Finset.sum_erase_add _ _ hk
  · have hnone : m.lookup k = none := Finmap.lookup_eq_none.mpr (mt Finmap.mem_keys.mpr hk)
    rw [Finset.erase_eq_of_notMem hk, hnone, Option.map_none, Option.getD_none, Nat.add_zero]

/-- Writing a value exchanges it for the old one in the sum. -/
theorem total_insert (f : V → ℕ) (m : FMap K V) (k : K) (v : V) :
    total f (Finmap.insert k v m) + ((m.lookup k).map f).getD 0 = total f m + f v := by
  have h := total_erase f (Finmap.insert k v m) k
  have h' := total_erase f m k
  have he : Finmap.erase k (Finmap.insert k v m) = Finmap.erase k m := by
    apply Finmap.ext_lookup
    intro a
    rw [lookup_erase_eq_ite, lookup_erase_eq_ite, lookup_insert_eq_ite]
    split_ifs <;> rfl
  rw [Finmap.lookup_insert, Option.map_some, Option.getD_some, he] at h
  omega

/-- The sum after an `upsert`. -/
theorem total_upsert (f : V → ℕ) (m : FMap K V) (k : K) (g : V → V) (v : V) :
    total f (upsert m k g v) + ((m.lookup k).map f).getD 0 =
      total f m + f ((m.lookup k).elim v g) := by
  rw [upsert_eq_insert, total_insert]

/-- The sum after an `adjust`. -/
theorem total_adjust (f : V → ℕ) (m : FMap K V) (k : K) (g : V → V) :
    total f (adjust m k g) + ((m.lookup k).map f).getD 0 =
      total f m + ((m.lookup k).map fun e => f (g e)).getD 0 := by
  unfold adjust
  cases h : m.lookup k with
  | none => rfl
  | some e =>
    have := total_insert f m k (g e)
    rwa [h] at this

/-- An `upsert` adds to the sum what it adds to the entry, or brings with a new one. -/
theorem total_upsert_add {f : V → ℕ} {m : FMap K V} {k : K} {g : V → V} {v : V} {d : ℕ}
    (hv : f v = d) (hg : ∀ e, m.lookup k = some e → f (g e) = f e + d) :
    total f (upsert m k g v) = total f m + d := by
  have h := total_upsert f m k g v
  cases he : m.lookup k with
  | none =>
    rw [he] at h
    simp only [Option.map_none, Option.getD_none, Option.elim_none] at h
    omega
  | some e =>
    have := hg e he
    rw [he] at h
    simp only [Option.map_some, Option.getD_some, Option.elim_some] at h
    omega

/-- An `adjust` takes from the sum what it takes from the entry. -/
theorem total_adjust_sub {f : V → ℕ} {m : FMap K V} {k : K} {g : V → V} {d : ℕ}
    (hnone : m.lookup k = none → d = 0) (hg : ∀ e, m.lookup k = some e → f (g e) + d = f e) :
    total f (adjust m k g) + d = total f m := by
  have h := total_adjust f m k g
  cases he : m.lookup k with
  | none =>
    have := hnone he
    rw [he] at h
    simp only [Option.map_none, Option.getD_none] at h
    omega
  | some e =>
    have := hg e he
    rw [he] at h
    simp only [Option.map_some, Option.getD_some] at h
    omega

/-- An `adjust` of an entry adds to the sum what it adds to the entry. -/
theorem total_adjust_add {f : V → ℕ} {m : FMap K V} {k : K} {g : V → V} {d : ℕ} (hk : k ∈ m)
    (hg : ∀ e, m.lookup k = some e → f (g e) = f e + d) :
    total f (adjust m k g) = total f m + d := by
  obtain ⟨e, he⟩ := Option.isSome_iff_exists.mp (Finmap.lookup_isSome.mpr hk)
  have h := total_adjust f m k g
  have := hg e he
  rw [he] at h
  simp only [Option.map_some, Option.getD_some] at h
  omega

/-- An `adjust` adds to the sum at most what it adds to the entry. -/
theorem total_adjust_le {f : V → ℕ} {m : FMap K V} {k : K} {g : V → V} {d : ℕ}
    (hg : ∀ e, m.lookup k = some e → f (g e) ≤ f e + d) :
    total f (adjust m k g) ≤ total f m + d := by
  have h := total_adjust f m k g
  cases he : m.lookup k with
  | none =>
    rw [he] at h
    simp only [Option.map_none, Option.getD_none] at h
    omega
  | some e =>
    have := hg e he
    rw [he] at h
    simp only [Option.map_some, Option.getD_some] at h
    omega

/-- No entry outgrows the sum. -/
theorem lookup_le_total (f : V → ℕ) (m : FMap K V) (k : K) :
    ((m.lookup k).map f).getD 0 ≤ total f m := by
  have := total_erase f m k
  omega

/-- The sum of the values of a map of counters. -/
def sum (m : FMap K ℕ) : ℕ := ∑ k ∈ m.keys, (m.lookup k).getD 0

/-- The sum of the values is the sum of what the identity reads from them. -/
theorem sum_eq_total (m : FMap K ℕ) : sum m = total id m := by
  simp only [sum, total, Option.map_id_fun, id_eq]

/-- Erasing a key takes its value out of the sum. -/
theorem sum_erase (m : FMap K ℕ) (k : K) :
    sum (Finmap.erase k m) + (m.lookup k).getD 0 = sum m := by
  simpa only [sum_eq_total, Option.map_id_fun, id_eq] using total_erase id m k

/-- Writing a value exchanges it for the old one in the sum. -/
theorem sum_insert (m : FMap K ℕ) (k : K) (v : ℕ) :
    sum (Finmap.insert k v m) + (m.lookup k).getD 0 = sum m + v := by
  simpa only [sum_eq_total, Option.map_id_fun, id_eq] using total_insert id m k v

/-- No value outgrows the sum. -/
theorem lookup_le_sum (m : FMap K ℕ) (k : K) : (m.lookup k).getD 0 ≤ sum m := by
  have := sum_erase m k
  omega

end FMap
