import Mathlib.Algebra.BigOperators.Group.Finset.Basic
import Mathlib.Data.Finmap

/-! Finite maps as `Finmap`, with the operations a store adds to them: keeping the
entries whose key passes a test, viewing the values, and summing a weight over all
entries. -/

universe u v w

/-- A finite map whose values do not depend on the key. -/
abbrev Table (Key : Type u) (Value : Type v) := Finmap fun _ : Key => Value

namespace Table

variable {Key : Type u} {Value : Type v}

/-- The entries whose key passes a test. -/
def retain (test : Key → Bool) (table : Table Key Value) : Table Key Value where
  entries := table.entries.filter fun entry => test entry.1
  nodupKeys := by
    have nodup := table.nodupKeys
    rw [← Multiset.nodup_keys] at nodup ⊢
    exact Multiset.nodup_of_le (Multiset.map_le_map (Multiset.filter_le _ _)) nodup

/-- The values that a view makes something of. -/
def filterMap {Other : Type w} (view : Value → Option Other) (table : Table Key Value) :
    Table Key Other where
  entries := table.entries.filterMap fun entry => (view entry.2).map fun seen => ⟨entry.1, seen⟩
  nodupKeys := by
    have nodup := table.nodupKeys
    rw [← Multiset.nodup_keys] at nodup ⊢
    have part : Multiset.keys (table.entries.filterMap fun entry =>
        (view entry.2).map fun seen => (⟨entry.1, seen⟩ : Sigma fun _ : Key => Other)) ≤
          table.entries.keys := by
      induction table.entries using Multiset.induction_on with
      | empty => exact le_rfl
      | cons entry rest ih =>
        cases seen : view entry.2 with
        | none =>
          rw [Multiset.filterMap_cons_none _ _ (by rw [seen]; rfl), Multiset.keys_cons]
          exact ih.trans (Multiset.le_cons_self _ _)
        | some value =>
          rw [Multiset.filterMap_cons_some _ _ _ (by rw [seen]; rfl), Multiset.keys_cons,
            Multiset.keys_cons]
          exact Multiset.cons_le_cons _ ih
    exact Multiset.nodup_of_le part nodup

variable [DecidableEq Key]

theorem lookup_filterMap {Other : Type w} (view : Value → Option Other) (table : Table Key Value)
    (key : Key) : (table.filterMap view).lookup key = (table.lookup key).bind view := by
  apply Option.ext
  intro seen
  rw [Finmap.lookup_eq_some_iff, Option.bind_eq_some_iff]
  simp only [filterMap, Multiset.mem_filterMap, Option.map_eq_some_iff, Finmap.lookup_eq_some_iff]
  constructor
  · rintro ⟨⟨other, value⟩, member, _, viewed, same⟩
    cases same
    exact ⟨value, member, viewed⟩
  · rintro ⟨value, member, viewed⟩
    exact ⟨⟨key, value⟩, member, seen, viewed, rfl⟩

theorem lookup_retain (test : Key → Bool) (table : Table Key Value) (key : Key) :
    (table.retain test).lookup key = if test key then table.lookup key else none := by
  apply Option.ext
  intro value
  rw [Finmap.lookup_eq_some_iff]
  by_cases passes : test key = true
  · simp only [passes, if_true, Finmap.lookup_eq_some_iff, retain, Multiset.mem_filter, and_true]
  · simp [retain, passes]

/-- Updating one key, for both outcomes of the comparison. -/
theorem lookup_insert_if (table : Table Key Value) (key other : Key) (value : Value) :
    (table.insert key value).lookup other = if other = key then some value else table.lookup other := by
  split
  · rename_i same
    subst other
    exact Finmap.lookup_insert table
  · rename_i different
    exact Finmap.lookup_insert_of_ne table different

theorem lookup_erase_if (table : Table Key Value) (key other : Key) :
    Finmap.lookup other (table.erase key) = if other = key then none else table.lookup other := by
  split
  · rename_i same
    subst other
    exact Finmap.lookup_erase key table
  · rename_i different
    exact Finmap.lookup_erase_ne different

theorem insert_lookup (table : Table Key Value) (found : table.lookup key = some value) :
    table.insert key value = table := by
  apply Finmap.ext_lookup
  intro other
  rw [lookup_insert_if]
  split
  · rename_i same
    rw [same, found]
  · rfl

section Total

variable {Sum : Type w} [AddCommGroup Sum]

/-- The sum of a weight over all entries. -/
def total (weight : Key → Value → Sum) (table : Table Key Value) : Sum :=
  (table.entries.map fun entry => weight entry.1 entry.2).sum

/-- What one key contributes to a total. -/
def share (weight : Key → Value → Sum) (table : Table Key Value) (key : Key) : Sum :=
  (table.lookup key).elim 0 (weight key)

variable (weight : Key → Value → Sum) (table : Table Key Value)

omit [DecidableEq Key] in
@[simp] theorem total_empty : total weight (∅ : Table Key Value) = 0 :=
  Multiset.sum_zero

/-- A total may be summed over any set of keys that covers the table. -/
theorem total_eq_sum (keys : Finset Key) (covers : table.keys ⊆ keys) :
    total weight table = ∑ key ∈ keys, share weight table key := by
  have onKeys : total weight table = ∑ key ∈ table.keys, share weight table key := by
    change _ = ((table.entries.map Sigma.fst).map (share weight table)).sum
    rw [Multiset.map_map, total]
    congr 1
    apply Multiset.map_congr rfl
    intro entry member
    have found : table.lookup entry.1 = some entry.2 := Finmap.lookup_eq_some_iff.mpr member
    simp [share, found]
  rw [onKeys]
  apply Finset.sum_subset covers
  intro key _ absent
  have missing : table.lookup key = none :=
    Finmap.lookup_eq_none.mpr (mt Finmap.mem_keys.mpr absent)
  simp [share, missing]

end Total

end Table
