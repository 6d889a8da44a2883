import Mathlib.Data.List.Infix

/-! Greedy packing: items are taken in order until the next one would exceed a
limit, and the first item always goes. -/

namespace Packing

universe u
variable {α : Type u} (exceeds : List α → Prop)

/-- What greedy packing takes of some items. -/
structure Packs (items taken : List α) : Prop where
  begins : taken <+: items
  progress : items ≠ [] → taken ≠ []
  within : ∀ n, 1 < n → n ≤ taken.length → ¬ exceeds (items.take n)
  stops : taken ≠ items → exceeds (items.take (taken.length + 1))

variable [DecidablePred exceeds]

/-- Takes items behind those already taken. -/
def pack : List α → List α → List α
  | taken, [] => taken
  | taken, item :: rest =>
    if taken ≠ [] ∧ exceeds (taken ++ [item]) then taken else pack (taken ++ [item]) rest

variable {exceeds}

private theorem pack_spec {items taken rest : List α} (split : items = taken ++ rest)
    (progress : rest = [] → items ≠ [] → taken ≠ [])
    (within : ∀ n, 1 < n → n ≤ taken.length → ¬ exceeds (items.take n)) :
    Packs exceeds items (pack exceeds taken rest) := by
  induction rest generalizing taken with
  | nil =>
    rw [List.append_nil] at split
    subst split
    refine ⟨List.prefix_rfl, progress rfl, within, ?_⟩
    intro stopped
    exact absurd rfl stopped
  | cons item rest ih =>
    have next : items.take (taken.length + 1) = taken ++ [item] := by
      rw [split, List.take_append, List.take_of_length_le (Nat.le_succ _), Nat.add_sub_cancel_left]
      rfl
    unfold pack
    split_ifs with stop
    · refine ⟨⟨item :: rest, split.symm⟩, fun _ => stop.1, within, ?_⟩
      intro _
      rw [next]
      exact stop.2
    · apply ih
      · rw [split, List.append_assoc]
        rfl
      · intro _ _
        simp
      · intro n more short
        rw [List.length_append, List.length_singleton] at short
        rcases Nat.lt_or_eq_of_le short with earlier | last
        · exact within n more (Nat.le_of_lt_succ earlier)
        · intro exceeded
          rw [last, next] at exceeded
          refine stop ⟨?_, exceeded⟩
          rintro rfl
          simp at last
          omega

theorem pack_packs (items : List α) : Packs exceeds items (pack exceeds [] items) := by
  apply pack_spec (List.nil_append items).symm
  · intro empty present
    exact absurd empty present
  · intro n more short
    simp at short
    omega

end Packing
