import Mathlib.Data.Int.CardIntervalMod
import Mathlib.Data.Nat.Periodic
import Mathlib.Logic.Function.Iterate
import Mathlib.Tactic.LinearCombination
import Mathlib.Tactic.Ring

/-! Linear congruential generators over a ring where some power of two is zero, and how
often each residue is met by the numbers a rejection threshold leaves. -/

universe u

namespace Congruential

section Generator

variable {Word : Type u} [CommRing Word]

/-- One step of the generator. -/
def advance (multiplier increment state : Word) : Word :=
  state * multiplier + increment

variable {multiplier increment : Word}

/-- `2 ^ bits` steps leave the low bits alone and flip the next one. -/
theorem advance_two_pow (four : ∃ quarter, multiplier = 4 * quarter + 1)
    (odd : ∃ half, increment = 2 * half + 1) (bits : ℕ) :
    ∃ factor half : Word, ∀ state, (advance multiplier increment)^[2 ^ bits] state =
      state + 2 ^ (bits + 2) * factor * state + 2 ^ bits * (2 * half + 1) := by
  induction bits with
  | zero =>
    obtain ⟨quarter, rfl⟩ := four
    obtain ⟨half, rfl⟩ := odd
    refine ⟨quarter, half, ?_⟩
    intro state
    simp only [pow_zero, Function.iterate_one, advance]
    ring
  | succ bits ih =>
    obtain ⟨factor, half, steps⟩ := ih
    refine ⟨factor + 2 ^ (bits + 1) * factor ^ 2, half + 2 ^ bits * factor * (2 * half + 1), ?_⟩
    intro state
    rw [pow_succ, mul_two, Function.iterate_add_apply, steps, steps]
    ring

/-- Each power of two in turn can be brought to agree with a target. -/
theorem advance_approaches (four : ∃ quarter, multiplier = 4 * quarter + 1)
    (odd : ∃ half, increment = 2 * half + 1)
    (halves : ∀ word : Word, ∃ half, word = 2 * half ∨ word = 2 * half + 1)
    (bits : ℕ) (state target : Word) :
    ∃ steps rest, (advance multiplier increment)^[steps] state = target + 2 ^ bits * rest := by
  induction bits with
  | zero =>
    refine ⟨0, state - target, ?_⟩
    simp only [Function.iterate_zero_apply]
    ring
  | succ bits ih =>
    obtain ⟨steps, rest, reached⟩ := ih
    obtain ⟨rest, even | uneven⟩ := halves rest
    · refine ⟨steps, rest, ?_⟩
      rw [reached, even]
      ring
    · obtain ⟨factor, half, further⟩ := advance_two_pow four odd bits
      refine ⟨2 ^ bits + steps, rest + half + 1 + 2 * factor * (target + 2 ^ bits * (2 * rest + 1)),
        ?_⟩
      rw [Function.iterate_add_apply, reached, uneven, further]
      ring

/-- A multiplier one above a multiple of four and an odd increment give the full period:
every word is reached from every other. -/
theorem advance_reaches (four : ∃ quarter, multiplier = 4 * quarter + 1)
    (odd : ∃ half, increment = 2 * half + 1)
    (halves : ∀ word : Word, ∃ half, word = 2 * half ∨ word = 2 * half + 1)
    {bits : ℕ} (wraps : (2 : Word) ^ bits = 0) (state target : Word) :
    ∃ steps, (advance multiplier increment)^[steps] state = target := by
  obtain ⟨steps, rest, reached⟩ := advance_approaches four odd halves bits state target
  refine ⟨steps, ?_⟩
  rw [reached, wraps, zero_mul, add_zero]

end Generator

section Residues

/-- Whole turns of `n` meet each residue once a turn, wherever they start. -/
theorem card_residue {n residue : ℕ} (start turns : ℕ) (below : residue < n) :
    ((Finset.Ico start (start + n * turns)).filter (fun x => x % n = residue)).card = turns := by
  have positive : 0 < n := Nat.zero_lt_of_lt below
  have periodic : Function.Periodic (fun x => x ≡ residue [MOD n]) (n * turns) := by
    intro x
    simp only [Nat.ModEq, Nat.add_mul_mod_self_left]
  have counted := Nat.filter_Ico_card_eq_of_periodic start (n * turns) _ periodic
  rw [Nat.count_modEq_card _ positive, Nat.mul_div_cancel_left _ positive, Nat.mul_mod_right,
    if_neg (Nat.not_lt_zero _), Nat.add_zero] at counted
  simpa only [Nat.ModEq, Nat.mod_eq_of_lt below] using counted

end Residues

end Congruential
