import Mathlib.Algebra.Order.Group.Nat
import Mathlib.Tactic.Ring

/-! Fixed-width big-endian digits: what byte and hexadecimal encodings of a
machine integer are made of. -/

namespace Positional

/-- The `width` low digits of `n`, most significant first. -/
def digits (base : Nat) : Nat → Nat → List Nat
  | 0, _ => []
  | width + 1, n => digits base width (n / base) ++ [n % base]

/-- The number a list of digits stands for, read from the left. -/
def value (base : Nat) (places : List Nat) : Nat :=
  places.foldl (fun total place => total * base + place) 0

@[simp] theorem length_digits (base width n : Nat) : (digits base width n).length = width := by
  induction width generalizing n with
  | zero => rfl
  | succ width ih => simp [digits, ih]

theorem digits_lt (base width n : Nat) (positive : 0 < base) :
    ∀ place ∈ digits base width n, place < base := by
  induction width generalizing n with
  | zero => simp [digits]
  | succ width ih =>
    intro place member
    rcases List.mem_append.mp member with earlier | final
    · exact ih _ place earlier
    · rw [List.mem_singleton.mp final]
      exact Nat.mod_lt _ positive

theorem value_append (base place : Nat) (places : List Nat) :
    value base (places ++ [place]) = value base places * base + place := by
  simp [value]

/-- Reading the digits back gives the number, up to the width written. -/
theorem value_digits (base width n : Nat) : value base (digits base width n) = n % base ^ width := by
  induction width generalizing n with
  | zero => simp [digits, value, Nat.mod_one]
  | succ width ih =>
    rw [digits, value_append, ih, Nat.pow_succ, Nat.mul_comm (base ^ width), Nat.mod_mul]
    ring

/-- Numbers that fit into the width are told apart by their digits. -/
theorem eq_of_digits_eq {base width a b : Nat} (fits : a < base ^ width) (fits' : b < base ^ width)
    (same : digits base width a = digits base width b) : a = b := by
  have values := congrArg (value base) same
  rwa [value_digits, value_digits, Nat.mod_eq_of_lt fits, Nat.mod_eq_of_lt fits'] at values

/-- Splitting every digit in two gives the digits in the smaller base. -/
theorem digits_split (base width n : Nat) :
    (digits (base * base) width n).flatMap (fun place => [place / base, place % base]) =
      digits base (2 * width) n := by
  induction width generalizing n with
  | zero => rfl
  | succ width ih =>
    have high : n % (base * base) / base = n / base % base := Nat.mod_mul_left_div_self n base base
    have low : n % (base * base) % base = n % base := Nat.mod_mul_left_mod n base base
    rw [digits, List.flatMap_append, ih, Nat.mul_succ, digits, digits, Nat.div_div_eq_div_mul]
    simp [high, low]

end Positional
