import CredSync.Library.Congruential
import Mathlib.Data.Set.Card
import Mathlib.Data.UInt

/-! The one source of chance in the simulator, and the bounded numbers drawn from it. A
draw rejects raw outputs until one falls past a threshold that leaves every residue
equally many. -/

namespace CredSync.Sim

structure Rng where
  state : UInt64
  seed : UInt64

namespace Rng

def multiplier : UInt64 := 6364136223846793005

def increment : UInt64 := 1442695040888963407

def new (seed : UInt64) : Rng :=
  { state := (seed + increment) * multiplier + increment, seed }

/-- `u32::rotate_right`. -/
def rotateRight (word rot : UInt32) : UInt32 :=
  ⟨word.toBitVec.rotateRight rot.toNat⟩

/-- The 32 bits a state is permuted down to. -/
def output (old : UInt64) : UInt32 :=
  let xorshifted := (((old >>> 18) ^^^ old) >>> 27).toUInt32
  let rot := (old >>> 59).toUInt32
  rotateRight xorshifted rot

def nextU32 (rng : Rng) : UInt32 × Rng :=
  let old := rng.state
  (output old, { rng with state := old * multiplier + increment })

/-- Where a bounded draw has got to. -/
inductive Drawn where
  | running
  | overflowed
  | returned (value : UInt32) (next : Rng)

namespace Drawn

def map (change : UInt32 → UInt32) : Drawn → Drawn
  | returned value next => returned (change value) next
  | other => other

end Drawn

/-- The loop of `below`, for as many draws as there is fuel. -/
def belowLoop (n threshold : UInt32) : ℕ → Rng → Drawn
  | 0, _ => .running
  | fuel + 1, rng =>
    let (v, rng) := rng.nextU32
    if threshold ≤ v then .returned (v % n) rng else belowLoop n threshold fuel rng

/-- A number in `0..n`, or `0` when `n` is zero. -/
def below (n : UInt32) (fuel : ℕ) (rng : Rng) : Drawn :=
  if n = 0 then
    .returned 0 rng
  else
    let threshold := (-n) % n
    belowLoop n threshold fuel rng

end Rng

/-- Whether arithmetic that leaves its type panics or wraps. -/
inductive Build where
  | dev
  | release

namespace Build

def overflowing (build : Build) (wrapped : UInt32) : Option UInt32 :=
  match build with
  | dev => none
  | release => some wrapped

def add (build : Build) (a b : UInt32) : Option UInt32 :=
  if a.toNat + b.toNat < 2 ^ 32 then some (a + b) else build.overflowing (a + b)

def sub (build : Build) (a b : UInt32) : Option UInt32 :=
  if b ≤ a then some (a - b) else build.overflowing (a - b)

end Build

namespace Rng

/-- A number in `low..=high`, inclusive. Returns `low` if the range is inverted. -/
def range (build : Build) (low high : UInt32) (fuel : ℕ) (rng : Rng) : Drawn :=
  if high ≤ low then
    .returned low rng
  else
    match (build.sub high low).bind (build.add · 1) with
    | none => .overflowed
    | some n =>
      match below n fuel rng with
      | .returned picked next =>
        match build.add low picked with
        | some value => .returned value next
        | none => .overflowed
      | other => other

/-- The generator after some outputs have been drawn and dropped. -/
def skip (draws : ℕ) (rng : Rng) : Rng :=
  (fun rng => rng.nextU32.2)^[draws] rng

/-- The raw outputs that a draw takes for a value as soon as it sees them. -/
def accepted (draw : ℕ → Rng → Drawn) (value : UInt32) : Set UInt32 :=
  {raw | ∃ rng next, rng.nextU32.1 = raw ∧ draw 1 rng = .returned value next}

/-- What is asked of a draw from some values: it comes to one of them from every generator,
on the first raw output it accepts, and it accepts as many outputs for each. -/
structure Uniform (draw : ℕ → Rng → Drawn) (values : Set UInt32) : Prop where
  returns : ∀ rng, ∃ enough value next, ∀ fuel ≥ enough, draw fuel rng = .returned value next
  safe : ∀ fuel rng, draw fuel rng ≠ .overflowed
  within : ∀ {fuel rng value next}, draw fuel rng = .returned value next →
    value ∈ values ∧ ∃ rejected, (∀ earlier < rejected, draw 1 (rng.skip earlier) = .running) ∧
      draw 1 (rng.skip rejected) = .returned value next
  apart : ∀ {value other raw}, raw ∈ accepted draw value → raw ∈ accepted draw other →
    value = other
  even : ∃ count > 0, ∀ value ∈ values, (accepted draw value).ncard = count

/-! ### Raw outputs -/

@[simp] theorem skip_zero (rng : Rng) : rng.skip 0 = rng := rfl

@[simp] theorem skip_succ (draws : ℕ) (rng : Rng) :
    rng.skip (draws + 1) = rng.nextU32.2.skip draws :=
  Function.iterate_succ_apply _ _ _

/-- The state, under no rotation, that gives a raw output. -/
def stateOf (raw : UInt32) : UInt64 :=
  (raw ^^^ (raw >>> 18)).toUInt64 <<< 27

theorem output_stateOf (raw : UInt32) : output (stateOf raw) = raw := by
  have shifted : (((stateOf raw >>> 18) ^^^ stateOf raw) >>> 27).toUInt32 = raw := by
    apply UInt32.toBitVec_inj.mp
    ext bit inside
    simp [stateOf]
    grind
  have unrotated : stateOf raw >>> 59 = 0 := by
    apply UInt64.toBitVec_inj.mp
    ext bit inside
    simp [stateOf]
    grind
  rw [output, shifted, unrotated]
  apply UInt32.toBitVec_inj.mp
  apply BitVec.eq_of_toNat_eq
  simp [rotateRight, BitVec.toNat_rotateRight, Nat.shiftLeft_eq]

theorem halves (word : UInt64) : ∃ half, word = 2 * half ∨ word = 2 * half + 1 := by
  refine ⟨word / 2, ?_⟩
  have bounded := word.toNat_lt
  simp only [← UInt64.toNat_inj, UInt64.toNat_mul, UInt64.toNat_div, UInt64.toNat_add,
    UInt64.reduceToNat]
  omega

section FullPeriod

open scoped UInt64.CommRing

theorem skip_state (draws : ℕ) (rng : Rng) :
    (rng.skip draws).state = (Congruential.advance multiplier increment)^[draws] rng.state := by
  induction draws generalizing rng with
  | zero => rfl
  | succ draws ih => rw [skip_succ, ih, Function.iterate_succ_apply, Congruential.advance, nextU32]

/-- The increment is odd, which gives the generator its full period: every raw output comes
from every generator in the end. -/
theorem output_reached (raw : UInt32) (rng : Rng) :
    ∃ draws, (rng.skip draws).nextU32.1 = raw := by
  have four : ∃ quarter, multiplier = 4 * quarter + 1 := ⟨multiplier / 4, by decide +kernel⟩
  have odd : ∃ half, increment = 2 * half + 1 := ⟨increment / 2, by decide +kernel⟩
  have wraps : (2 : UInt64) ^ 64 = 0 := by decide +kernel
  obtain ⟨draws, reached⟩ :=
    Congruential.advance_reaches four odd halves wraps rng.state (stateOf raw)
  refine ⟨draws, ?_⟩
  simp only [nextU32]
  rw [skip_state, reached, output_stateOf]

end FullPeriod

theorem output_given (raw : UInt32) : ∃ rng : Rng, rng.nextU32.1 = raw :=
  ⟨{ state := stateOf raw, seed := 0 }, output_stateOf raw⟩

/-! ### Numbers below a bound -/

section Below

variable {n threshold : UInt32}

theorem belowLoop_one (rng : Rng) :
    belowLoop n threshold 1 rng =
      if threshold ≤ rng.nextU32.1 then .returned (rng.nextU32.1 % n) rng.nextU32.2
      else .running := by
  simp only [belowLoop]

theorem belowLoop_succ (fuel : ℕ) (rng : Rng) :
    belowLoop n threshold (fuel + 1) rng =
      if threshold ≤ rng.nextU32.1 then .returned (rng.nextU32.1 % n) rng.nextU32.2
      else belowLoop n threshold fuel rng.nextU32.2 := by
  rw [belowLoop]

/-- The loop goes on past the outputs it rejects. -/
theorem belowLoop_rejects {rejected : ℕ} {rng : Rng}
    (rejects : ∀ earlier < rejected, ¬threshold ≤ (rng.skip earlier).nextU32.1) (fuel : ℕ) :
    belowLoop n threshold (rejected + fuel) rng = belowLoop n threshold fuel (rng.skip rejected) := by
  induction rejected generalizing rng with
  | zero => rw [Nat.zero_add, skip_zero]
  | succ rejected ih =>
    have first : ¬threshold ≤ rng.nextU32.1 := by
      simpa only [skip_zero] using rejects 0 (Nat.succ_pos rejected)
    rw [Nat.add_right_comm, belowLoop_succ, if_neg first, skip_succ]
    apply ih
    intro earlier inside
    simpa only [skip_succ] using rejects (earlier + 1) (Nat.succ_lt_succ inside)

theorem belowLoop_returns (rng : Rng) :
    ∃ enough value next, ∀ fuel ≥ enough,
      belowLoop n threshold fuel rng = .returned value next := by
  have accepting : ∃ draws, threshold ≤ (rng.skip draws).nextU32.1 := by
    obtain ⟨draws, reached⟩ := output_reached threshold rng
    exact ⟨draws, reached ▸ UInt32.le_refl _⟩
  have accepts := Nat.find_spec accepting
  have rejects : ∀ earlier < Nat.find accepting, ¬threshold ≤ (rng.skip earlier).nextU32.1 :=
    fun earlier inside => Nat.find_min accepting inside
  let last := rng.skip (Nat.find accepting)
  refine ⟨Nat.find accepting + 1, last.nextU32.1 % n, last.nextU32.2, ?_⟩
  intro fuel enough
  obtain ⟨spare, rfl⟩ := Nat.exists_eq_add_of_le enough
  rw [Nat.add_assoc, belowLoop_rejects rejects, Nat.add_comm 1 spare, belowLoop_succ,
    if_pos accepts]

theorem belowLoop_returned {fuel : ℕ} {rng : Rng} {value : UInt32} {next : Rng}
    (returned : belowLoop n threshold fuel rng = .returned value next) :
    ∃ rejected, (∀ earlier < rejected,
        belowLoop n threshold 1 (rng.skip earlier) = .running) ∧
      belowLoop n threshold 1 (rng.skip rejected) = .returned value next := by
  induction fuel generalizing rng with
  | zero => cases returned
  | succ fuel ih =>
    rw [belowLoop_succ] at returned
    split at returned
    · rename_i accepts
      refine ⟨0, fun earlier inside => absurd inside (Nat.not_lt_zero earlier), ?_⟩
      rw [skip_zero, belowLoop_one, if_pos accepts, returned]
    · rename_i rejects
      obtain ⟨rejected, running, last⟩ := ih returned
      refine ⟨rejected + 1, ?_, by rw [skip_succ, last]⟩
      intro earlier inside
      cases earlier with
      | zero => rw [skip_zero, belowLoop_one, if_neg rejects]
      | succ earlier => rw [skip_succ, running earlier (Nat.lt_of_succ_lt_succ inside)]

theorem belowLoop_safe (fuel : ℕ) (rng : Rng) : belowLoop n threshold fuel rng ≠ .overflowed := by
  induction fuel generalizing rng with
  | zero => exact nofun
  | succ fuel ih =>
    rw [belowLoop_succ]
    split
    · exact nofun
    · exact ih _

theorem accepted_belowLoop (value : UInt32) :
    accepted (belowLoop n threshold) value = {raw | threshold ≤ raw ∧ raw % n = value} := by
  ext raw
  constructor
  · rintro ⟨rng, next, rfl, returned⟩
    rw [belowLoop_one] at returned
    split at returned
    · rename_i accepts
      cases returned
      exact ⟨accepts, rfl⟩
    · cases returned
  · rintro ⟨accepts, rfl⟩
    obtain ⟨rng, rfl⟩ := output_given raw
    exact ⟨rng, rng.nextU32.2, rfl, by rw [belowLoop_one, if_pos accepts]⟩

end Below

section Threshold

variable {n : UInt32}

/-- What the threshold leaves of the raw outputs is a whole number of turns. -/
theorem threshold_turns (positive : 0 < n) :
    ∃ turns > 0, 2 ^ 32 = ((-n) % n).toNat + n.toNat * turns := by
  have bounded := n.toNat_lt
  have above : 0 < n.toNat := UInt32.lt_iff_toNat_lt.mp positive
  have negated : (-n).toNat = 2 ^ 32 - n.toNat := by
    rw [UInt32.toNat_neg]
    exact Nat.mod_eq_of_lt (Nat.sub_lt (Nat.two_pow_pos 32) above)
  refine ⟨(2 ^ 32 - n.toNat) / n.toNat + 1, Nat.succ_pos _, ?_⟩
  rw [UInt32.toNat_mod, negated, Nat.mul_add_one, ← Nat.add_assoc, Nat.mod_add_div,
    Nat.sub_add_cancel (Nat.le_of_lt bounded)]

theorem accepted_card {threshold value : UInt32} {turns : ℕ} (inside : value < n)
    (whole : 2 ^ 32 = threshold.toNat + n.toNat * turns) :
    {raw : UInt32 | threshold ≤ raw ∧ raw % n = value}.ncard = turns := by
  have image : UInt32.toNat '' {raw : UInt32 | threshold ≤ raw ∧ raw % n = value} =
      ↑((Finset.Ico threshold.toNat (threshold.toNat + n.toNat * turns)).filter
        (fun x => x % n.toNat = value.toNat)) := by
    ext x
    simp only [Set.mem_image, Set.mem_ofPred_eq, Finset.coe_filter, Finset.mem_Ico]
    constructor
    · rintro ⟨raw, ⟨accepts, rfl⟩, rfl⟩
      exact ⟨⟨UInt32.le_iff_toNat_le.mp accepts, whole ▸ raw.toNat_lt⟩,
        (UInt32.toNat_mod raw n).symm⟩
    · rintro ⟨⟨accepts, bounded⟩, residue⟩
      have fits : (UInt32.ofNat x).toNat = x := by
        rw [UInt32.toNat_ofNat', Nat.mod_eq_of_lt (whole ▸ bounded)]
      refine ⟨UInt32.ofNat x, ⟨?_, ?_⟩, fits⟩
      · rw [UInt32.le_iff_toNat_le, fits]
        exact accepts
      · rw [← UInt32.toNat_inj, UInt32.toNat_mod, fits]
        exact residue
  have injective : Function.Injective UInt32.toNat := fun _ _ => UInt32.toNat_inj.mp
  rw [← Set.ncard_image_of_injective _ injective, image, Set.ncard_coe_finset]
  exact Congruential.card_residue _ turns (UInt32.lt_iff_toNat_lt.mp inside)

theorem below_positive (positive : 0 < n) : below n = belowLoop n ((-n) % n) := by
  have nonzero : n ≠ 0 := (UInt32.ne_of_lt positive).symm
  funext fuel rng
  rw [below, if_neg nonzero]

/-- Rejection leaves no bias. -/
theorem below_uniform (positive : 0 < n) : Uniform (below n) {value | value < n} := by
  rw [below_positive positive]
  obtain ⟨turns, some, whole⟩ := threshold_turns positive
  refine ⟨belowLoop_returns, belowLoop_safe, ?_, ?_, turns, some, ?_⟩
  · intro fuel rng value next returned
    obtain ⟨rejected, running, last⟩ := belowLoop_returned returned
    refine ⟨?_, rejected, running, last⟩
    rw [belowLoop_one] at last
    split at last
    · cases last
      exact UInt32.mod_lt _ positive
    · cases last
  · intro value other raw one two
    rw [accepted_belowLoop] at one two
    exact one.2.symm.trans two.2
  · intro value inside
    rw [accepted_belowLoop]
    exact accepted_card inside whole

end Threshold

/-! ### Numbers in a range -/

theorem map_returned {change : UInt32 → UInt32} {drawn : Drawn} {value : UInt32} {next : Rng} :
    drawn.map change = .returned value next ↔
      ∃ picked, drawn = .returned picked next ∧ change picked = value := by
  cases drawn with
  | running => simp [Drawn.map]
  | overflowed => simp [Drawn.map]
  | returned picked after => grind [Drawn.map]

/-- Renaming the values of a draw, no two to the same, leaves it uniform. -/
theorem Uniform.map {draw : ℕ → Rng → Drawn} {values : Set UInt32} (uniform : Uniform draw values)
    {change : UInt32 → UInt32} (distinct : Set.InjOn change values) :
    Uniform (fun fuel rng => (draw fuel rng).map change) (change '' values) := by
  have same : ∀ value ∈ values, accepted (fun fuel rng => (draw fuel rng).map change)
      (change value) = accepted draw value := by
    intro value inside
    ext raw
    constructor
    · rintro ⟨rng, next, given, returned⟩
      obtain ⟨picked, returned, changed⟩ := map_returned.mp returned
      rw [← distinct (uniform.within returned).1 inside changed]
      exact ⟨rng, next, given, returned⟩
    · rintro ⟨rng, next, given, returned⟩
      exact ⟨rng, next, given, map_returned.mpr ⟨value, returned, rfl⟩⟩
  refine ⟨?_, ?_, ?_, ?_, ?_⟩
  · intro rng
    obtain ⟨enough, value, next, returns⟩ := uniform.returns rng
    refine ⟨enough, change value, next, ?_⟩
    intro fuel bound
    exact map_returned.mpr ⟨value, returns fuel bound, rfl⟩
  · intro fuel rng overflowed
    apply uniform.safe fuel rng
    cases drawn : draw fuel rng with
    | overflowed => rfl
    | running => simp [drawn, Drawn.map] at overflowed
    | returned value next => simp [drawn, Drawn.map] at overflowed
  · intro fuel rng value next returned
    obtain ⟨picked, drawn, rfl⟩ := map_returned.mp returned
    obtain ⟨inside, rejected, running, last⟩ := uniform.within drawn
    refine ⟨⟨picked, inside, rfl⟩, rejected, ?_, map_returned.mpr ⟨picked, last, rfl⟩⟩
    intro earlier before
    simp only [running earlier before, Drawn.map]
  · rintro value other raw ⟨one, next, rfl, returned⟩ ⟨two, after, given, again⟩
    obtain ⟨picked, drawn, rfl⟩ := map_returned.mp returned
    obtain ⟨chosen, drawn', rfl⟩ := map_returned.mp again
    rw [uniform.apart ⟨one, next, rfl, drawn⟩ ⟨two, after, given, drawn'⟩]
  · obtain ⟨count, some, even⟩ := uniform.even
    refine ⟨count, some, ?_⟩
    rintro _ ⟨value, inside, rfl⟩
    rw [same value inside]
    exact even value inside

/-- A draw that takes no raw output. -/
theorem uniform_single (only : UInt32) : Uniform (fun _ rng => .returned only rng) {only} := by
  have all : accepted (fun _ rng => .returned only rng) only = Set.univ := by
    apply Set.eq_univ_of_forall
    intro raw
    obtain ⟨rng, given⟩ := output_given raw
    exact ⟨rng, rng, given, rfl⟩
  have finite : Finite UInt32 := Finite.of_injective _ UInt32.toFin_injective
  refine ⟨?_, fun _ _ => nofun, ?_, ?_, (Set.univ : Set UInt32).ncard, ?_, ?_⟩
  · intro rng
    exact ⟨0, only, rng, fun _ _ => rfl⟩
  · rintro fuel rng value next ⟨⟩
    exact ⟨rfl, 0, fun earlier inside => absurd inside (Nat.not_lt_zero earlier), rfl⟩
  · rintro value other raw ⟨_, _, _, one⟩ ⟨_, _, _, two⟩
    cases one
    cases two
    rfl
  · exact (Set.ncard_pos (Set.toFinite _)).mpr ⟨only, Set.mem_univ only⟩
  · rintro value rfl
    rw [all]

section Range

/-- `u32::MAX`. -/
def u32Max : UInt32 := 4294967295

variable {build : Build} {low high : UInt32}

theorem add_fits {a b : UInt32} (fits : a.toNat + b.toNat < 2 ^ 32) :
    build.add a b = some (a + b) :=
  if_pos fits

theorem toNat_add_fits {a b : UInt32} (fits : a.toNat + b.toNat < 2 ^ 32) :
    (a + b).toNat = a.toNat + b.toNat := by
  rw [UInt32.toNat_add, Nat.mod_eq_of_lt fits]

/-- Short of every value there is, a range has one more value than its ends are apart. -/
theorem span_fits (ordered : low < high) (short : ¬(low = 0 ∧ high = u32Max)) :
    (high - low).toNat = high.toNat - low.toNat ∧ (high - low).toNat + 1 < 2 ^ 32 := by
  have bounded := high.toNat_lt
  have ordered := UInt32.lt_iff_toNat_lt.mp ordered
  have apart := UInt32.toNat_sub_of_le high low (UInt32.le_iff_toNat_le.mpr (Nat.le_of_lt ordered))
  refine ⟨apart, ?_⟩
  have ends : ¬(low.toNat = 0 ∧ high.toNat = 2 ^ 32 - 1) := by
    rintro ⟨first, last⟩
    exact short ⟨UInt32.toNat_inj.mp first, UInt32.toNat_inj.mp last⟩
  omega

theorem toNat_span (ordered : low < high) (short : ¬(low = 0 ∧ high = u32Max)) :
    (high - low + 1).toNat = high.toNat - low.toNat + 1 := by
  obtain ⟨apart, fits⟩ := span_fits ordered short
  rw [toNat_add_fits fits, apart]
  rfl

theorem span_positive (ordered : low < high) (short : ¬(low = 0 ∧ high = u32Max)) :
    0 < high - low + 1 := by
  rw [UInt32.lt_iff_toNat_lt, toNat_span ordered short]
  exact Nat.succ_pos _

/-- Adding the low end to a number below the span stays within the range. -/
theorem span_inside (ordered : low < high) (short : ¬(low = 0 ∧ high = u32Max)) {picked : UInt32}
    (inside : picked < high - low + 1) :
    low.toNat + picked.toNat < 2 ^ 32 ∧ low.toNat + picked.toNat ≤ high.toNat := by
  have bounded := high.toNat_lt
  have inside := UInt32.lt_iff_toNat_lt.mp inside
  have ordered' := UInt32.lt_iff_toNat_lt.mp ordered
  rw [toNat_span ordered short] at inside
  omega

theorem range_eq (ordered : low < high) (short : ¬(low = 0 ∧ high = u32Max)) :
    range build low high = fun fuel rng => (below (high - low + 1) fuel rng).map (low + ·) := by
  funext fuel rng
  have checked : (build.sub high low).bind (build.add · 1) = some (high - low + 1) := by
    rw [Build.sub, if_pos (UInt32.le_of_lt ordered), Option.bind_some,
      add_fits (span_fits ordered short).2]
  rw [range, if_neg (UInt32.not_le.mpr ordered), checked]
  cases drawn : below (high - low + 1) fuel rng with
  | running => simp only [drawn, Drawn.map]
  | overflowed => simp only [drawn, Drawn.map]
  | returned picked next =>
    have inside := ((below_uniform (span_positive ordered short)).within drawn).1
    simp only [drawn, add_fits (span_inside ordered short inside).1, Drawn.map]

/-- Adding the low end to the numbers below the span gives the whole range. -/
theorem image_span (ordered : low < high) (short : ¬(low = 0 ∧ high = u32Max)) :
    (low + ·) '' {picked | picked < high - low + 1} = {value | low ≤ value ∧ value ≤ high} := by
  ext value
  simp only [Set.mem_image, Set.mem_ofPred_eq, UInt32.le_iff_toNat_le]
  constructor
  · rintro ⟨picked, inside, rfl⟩
    obtain ⟨fits, bounded⟩ := span_inside ordered short inside
    rw [toNat_add_fits fits]
    exact ⟨Nat.le_add_right _ _, bounded⟩
  · rintro ⟨above, bounded⟩
    have apart := UInt32.toNat_sub_of_le value low (UInt32.le_iff_toNat_le.mpr above)
    refine ⟨value - low, ?_, ?_⟩
    · rw [UInt32.lt_iff_toNat_lt, toNat_span ordered short, apart]
      omega
    · rw [UInt32.add_comm, UInt32.sub_add_cancel]

theorem range_uniform (ordered : low ≤ high) (short : ¬(low = 0 ∧ high = u32Max)) :
    Uniform (range build low high) {value | low ≤ value ∧ value ≤ high} := by
  rcases UInt32.le_iff_lt_or_eq.mp ordered with apart | rfl
  · rw [range_eq apart short, ← image_span apart short]
    apply (below_uniform (span_positive apart short)).map
    intro one _ two _ same
    exact add_left_cancel same
  · have single : {value | low ≤ value ∧ value ≤ low} = ({low} : Set UInt32) := by
      ext value
      constructor
      · rintro ⟨above, bounded⟩
        exact UInt32.le_antisymm bounded above
      · rintro rfl
        exact ⟨ordered, ordered⟩
    have constant : range build low low = fun _ rng => .returned low rng := by
      funext fuel rng
      rw [range, if_pos ordered]
    rw [single, constant]
    exact uniform_single low

/-- The whole of `u32` has one value more than `u32` can count. -/
theorem range_full_dev (fuel : ℕ) (rng : Rng) : range .dev 0 u32Max fuel rng = .overflowed := by
  rfl

theorem range_full_release (fuel : ℕ) (rng : Rng) :
    range .release 0 u32Max fuel rng = .returned 0 rng := by
  rfl

theorem range_full_biased :
    ¬Uniform (range build 0 u32Max) {value | 0 ≤ value ∧ value ≤ u32Max} := by
  intro uniform
  cases build with
  | dev => exact uniform.safe 0 (new 0) (range_full_dev 0 (new 0))
  | release =>
    obtain ⟨count, some, even⟩ := uniform.even
    have never : accepted (range .release 0 u32Max) 1 = ∅ := by
      apply Set.eq_empty_of_forall_notMem
      rintro raw ⟨rng, next, _, returned⟩
      rw [range_full_release] at returned
      cases returned
    have none := even 1 ⟨by decide, by decide⟩
    rw [never, Set.ncard_empty] at none
    exact Nat.ne_of_gt some none.symm

end Range

/-- Every bounded draw is unbiased, the whole of `u32` excepted, which `range` cannot span. -/
theorem draws_unbiased (build : Build) {n low high : UInt32} (positive : 0 < n)
    (ordered : low ≤ high) :
    Uniform (below n) {value | value < n} ∧
      (Uniform (range build low high) {value | low ≤ value ∧ value ≤ high} ↔
        ¬(low = 0 ∧ high = u32Max)) := by
  refine ⟨below_uniform positive, ?_, range_uniform ordered⟩
  rintro uniform ⟨rfl, rfl⟩
  exact range_full_biased uniform

end Rng

end CredSync.Sim

namespace CredSync.Sample

open Sim Rng

/-- A die, and a range in the simulator's own use. -/
theorem die_unbiased :
    Uniform (below 6) {value | value < 6} ∧
      (Uniform (range .release 1 500) {value | 1 ≤ value ∧ value ≤ 500} ↔
        ¬((1 : UInt32) = 0 ∧ (500 : UInt32) = u32Max)) :=
  draws_unbiased .release (by decide) (by decide)

/-- Over the whole of `u32` the span leaves its type: one build panics, the other always
draws zero. -/
theorem whole_range_biased :
    range .dev 0 u32Max 1 (new 7) = .overflowed ∧
      range .release 0 u32Max 1 (new 7) = .returned 0 (new 7) ∧
      ¬Uniform (range .dev 0 u32Max) {value | 0 ≤ value ∧ value ≤ u32Max} ∧
      ¬Uniform (range .release 0 u32Max) {value | 0 ≤ value ∧ value ≤ u32Max} :=
  ⟨range_full_dev 1 (new 7), range_full_release 1 (new 7), range_full_biased, range_full_biased⟩

end CredSync.Sample

