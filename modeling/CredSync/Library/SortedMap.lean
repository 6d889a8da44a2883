import Mathlib.Algebra.BigOperators.Group.List.Basic
import Mathlib.Data.List.Perm.Lattice
import Mathlib.Order.Lattice

/-! Sorted maps as lists of entries with strictly ascending keys: insertion, which
replaces what stands under the key, the map that entries make one after the other, and
maps that count. -/

universe u v

namespace SortedMap

variable {Key : Type u} {Value : Type v} [LinearOrder Key]

/-- Strictly ascending keys. -/
def Sorted (entries : List (Key × Value)) : Prop := entries.Pairwise fun a b => a.1 < b.1

def insert (key : Key) (value : Value) : List (Key × Value) → List (Key × Value)
  | [] => [(key, value)]
  | (other, held) :: rest =>
    if key < other then (key, value) :: (other, held) :: rest
    else if key = other then (key, value) :: rest
    else (other, held) :: insert key value rest

theorem insert_nil (key : Key) (value : Value) : insert key value [] = [(key, value)] := rfl

theorem insert_before {key other : Key} (before : key < other) (value held : Value)
    (rest : List (Key × Value)) :
    insert key value ((other, held) :: rest) = (key, value) :: (other, held) :: rest :=
  if_pos before

theorem insert_after {key other : Key} (after : other < key) (value held : Value)
    (rest : List (Key × Value)) :
    insert key value ((other, held) :: rest) = (other, held) :: insert key value rest := by
  rw [insert, if_neg (lt_asymm after), if_neg (ne_of_gt after)]

/-- The map of all entries; a later one replaces an earlier one of its key. -/
def ofList (entries : List (Key × Value)) : List (Key × Value) :=
  entries.foldl (fun map entry => insert entry.1 entry.2 map) []

theorem mem_of_mem_insert {key : Key} {value : Value} {entry : Key × Value}
    {map : List (Key × Value)} (member : entry ∈ insert key value map) :
    entry = (key, value) ∨ entry ∈ map := by
  induction map with
  | nil => exact .inl (List.mem_singleton.mp member)
  | cons head rest ih =>
    obtain ⟨other, held⟩ := head
    rw [insert] at member
    split at member
    · exact List.mem_cons.mp member
    · split at member
      · exact (List.mem_cons.mp member).imp_right (List.mem_cons_of_mem _)
      · cases List.mem_cons.mp member with
        | inl same => exact .inr (same ▸ List.mem_cons_self)
        | inr later => exact (ih later).imp_right (List.mem_cons_of_mem _)

theorem Sorted.insert {map : List (Key × Value)} (sorted : Sorted map) (key : Key)
    (value : Value) : Sorted (insert key value map) := by
  induction map with
  | nil => exact List.pairwise_singleton _ _
  | cons head rest ih =>
    obtain ⟨other, held⟩ := head
    obtain ⟨below, tail⟩ := List.pairwise_cons.mp sorted
    rw [SortedMap.insert]
    split
    case isTrue before =>
      apply List.pairwise_cons.mpr
      refine ⟨fun entry member => ?_, sorted⟩
      cases List.mem_cons.mp member with
      | inl same => exact same ▸ before
      | inr later => exact before.trans (below entry later)
    case isFalse notBefore =>
      split
      case isTrue same => exact List.pairwise_cons.mpr ⟨same ▸ below, tail⟩
      case isFalse different =>
        apply List.pairwise_cons.mpr
        refine ⟨fun entry member => ?_, ih tail⟩
        cases mem_of_mem_insert member with
        | inl same => exact same ▸ lt_of_le_of_ne (not_lt.mp notBefore) (Ne.symm different)
        | inr held => exact below entry held

/-- A key above all others is inserted at the end. -/
theorem insert_last {key : Key} {value : Value} {map : List (Key × Value)}
    (above : ∀ entry ∈ map, entry.1 < key) : insert key value map = map ++ [(key, value)] := by
  induction map with
  | nil => rfl
  | cons head rest ih =>
    obtain ⟨other, held⟩ := head
    have least : other < key := above _ List.mem_cons_self
    have others := ih fun entry member => above entry (List.mem_cons_of_mem _ member)
    rw [insert_after least, others, List.cons_append]

/-- A key the map does not hold adds its entry and keeps the others. -/
theorem insert_perm {key : Key} {value : Value} {map : List (Key × Value)}
    (absent : ∀ entry ∈ map, entry.1 ≠ key) : (insert key value map).Perm ((key, value) :: map) := by
  induction map with
  | nil => exact .refl _
  | cons head rest ih =>
    obtain ⟨other, held⟩ := head
    have different : other ≠ key := absent _ List.mem_cons_self
    have others := ih fun entry member => absent entry (List.mem_cons_of_mem _ member)
    rw [insert]
    split
    · exact .refl _
    · rw [if_neg (Ne.symm different)]
      exact (others.cons _).trans (.swap _ _ _)

def lookup (key : Key) : List (Key × Value) → Option Value
  | [] => none
  | (other, held) :: rest => if other = key then some held else lookup key rest

/-- Insertion changes what stands under its own key and nothing else. -/
theorem lookup_insert (key other : Key) (value : Value) (map : List (Key × Value)) :
    lookup other (insert key value map) = if key = other then some value else lookup other map := by
  induction map with
  | nil => rfl
  | cons head rest ih =>
    obtain ⟨first, held⟩ := head
    rw [insert]
    split
    · rfl
    · split
      · rename_i same
        subst same
        rw [lookup, lookup]
        split <;> rfl
      · rename_i different
        rw [lookup, lookup, ih]
        by_cases here : first = other
        · rw [if_pos here, if_pos here, if_neg (here ▸ different)]
        · rw [if_neg here, if_neg here]

theorem lookup_none {key : Key} {map : List (Key × Value)}
    (absent : ∀ entry ∈ map, entry.1 ≠ key) : lookup key map = none := by
  induction map with
  | nil => rfl
  | cons head rest ih =>
    obtain ⟨first, held⟩ := head
    rw [lookup, if_neg (absent _ List.mem_cons_self)]
    exact ih fun entry member => absent entry (List.mem_cons_of_mem _ member)

section Counting

variable [AddCommMonoid Value]

/-- What was counted under a key. -/
def count (key : Key) (map : List (Key × Value)) : Value := (lookup key map).getD 0

/-- `*map.entry(key).or_insert(0) += value`. -/
def tally (map : List (Key × Value)) (entry : Key × Value) : List (Key × Value) :=
  insert entry.1 (count entry.1 map + entry.2) map

/-- What an entry adds under a key. -/
def share (key : Key) (entry : Key × Value) : Value := if entry.1 = key then entry.2 else 0

theorem count_tally (key : Key) (map : List (Key × Value)) (entry : Key × Value) :
    count key (tally map entry) = count key map + share key entry := by
  rw [count, tally, lookup_insert, share]
  split
  · rename_i same
    subst same
    rfl
  · rw [add_zero]
    rfl

theorem count_foldl (key : Key) (map entries : List (Key × Value)) :
    count key (entries.foldl tally map) = count key map + (entries.map (share key)).sum := by
  induction entries generalizing map with
  | nil => simp
  | cons entry rest ih =>
    rw [List.foldl_cons, ih, count_tally, List.map_cons, List.sum_cons, add_assoc]

theorem Sorted.foldl_tally {map : List (Key × Value)} (sorted : Sorted map)
    (entries : List (Key × Value)) : Sorted (entries.foldl tally map) := by
  induction entries generalizing map with
  | nil => exact sorted
  | cons entry rest ih => exact ih (sorted.insert _ _)

/-- The entries of a map, counted, are its counts. -/
theorem Sorted.sum_share {map : List (Key × Value)} (sorted : Sorted map) (key : Key) :
    (map.map (share key)).sum = count key map := by
  induction map with
  | nil => rfl
  | cons head rest ih =>
    obtain ⟨first, held⟩ := head
    obtain ⟨above, tail⟩ := List.pairwise_cons.mp sorted
    rw [List.map_cons, List.sum_cons, ih tail, share, count, count, lookup]
    by_cases here : first = key
    · have absent : lookup key rest = none :=
        lookup_none fun entry member => here ▸ (ne_of_gt (above entry member))
      rw [if_pos here, if_pos here, absent]
      exact add_zero held
    · rw [if_neg here, if_neg here, zero_add]

end Counting

section Building

variable (entries : List (Key × Value))

theorem mem_foldl {map : List (Key × Value)} {entry : Key × Value}
    (member : entry ∈ entries.foldl (fun map entry => insert entry.1 entry.2 map) map) :
    entry ∈ entries ∨ entry ∈ map := by
  induction entries generalizing map with
  | nil => exact .inr member
  | cons first rest ih =>
    cases ih member with
    | inl later => exact .inl (List.mem_cons_of_mem _ later)
    | inr held =>
      cases mem_of_mem_insert held with
      | inl same => exact .inl (same ▸ List.mem_cons_self)
      | inr earlier => exact .inr earlier

theorem mem_of_mem_ofList {entry : Key × Value} (member : entry ∈ ofList entries) :
    entry ∈ entries :=
  (mem_foldl entries member).resolve_right List.not_mem_nil

theorem ofList_sorted : Sorted (ofList entries) := by
  have build : ∀ map : List (Key × Value), Sorted map →
      Sorted (entries.foldl (fun map entry => insert entry.1 entry.2 map) map) := by
    induction entries with
    | nil => exact fun map sorted => sorted
    | cons first rest ih => exact fun map sorted => ih _ (sorted.insert first.1 first.2)
  exact build [] .nil

/-- Entries that come sorted are the map they make. -/
theorem ofList_of_sorted {entries : List (Key × Value)} (sorted : Sorted entries) :
    ofList entries = entries := by
  have build : ∀ map : List (Key × Value), Sorted (map ++ entries) →
      entries.foldl (fun map entry => insert entry.1 entry.2 map) map = map ++ entries := by
    clear sorted
    induction entries with
    | nil => exact fun map _ => (List.append_nil map).symm
    | cons first rest ih =>
      intro map sorted
      have above : ∀ entry ∈ map, entry.1 < first.1 := fun entry member =>
        (List.pairwise_append.mp sorted).2.2 entry member first List.mem_cons_self
      have split : map ++ first :: rest = (map ++ [first]) ++ rest := by simp
      rw [List.foldl_cons, insert_last above, split]
      exact ih _ (split ▸ sorted)
  exact build [] sorted

/-- With distinct keys nothing is replaced. -/
theorem ofList_perm {entries : List (Key × Value)} (distinct : (entries.map Prod.fst).Nodup) :
    (ofList entries).Perm entries := by
  have build : ∀ map : List (Key × Value), ((map ++ entries).map Prod.fst).Nodup →
      (entries.foldl (fun map entry => insert entry.1 entry.2 map) map).Perm (map ++ entries) := by
    clear distinct
    induction entries with
    | nil => exact fun map _ => (List.append_nil map).symm ▸ .refl _
    | cons first rest ih =>
      intro map distinct
      have absent : ∀ entry ∈ map, entry.1 ≠ first.1 := by
        intro entry member
        rw [List.map_append] at distinct
        exact (List.nodup_append.mp distinct).2.2 _ (List.mem_map_of_mem member) _
          List.mem_cons_self
      have joined : (insert first.1 first.2 map ++ rest).Perm (map ++ first :: rest) :=
        ((insert_perm absent).append_right rest).trans List.perm_middle.symm
      have kept : ((insert first.1 first.2 map ++ rest).map Prod.fst).Nodup :=
        (joined.map Prod.fst).nodup_iff.mpr distinct
      exact (ih _ kept).trans joined
  exact build [] distinct

end Building

end SortedMap
