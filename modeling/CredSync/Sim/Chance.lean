import CredSync.Sim.Batch
import CredSync.Sim.Rng

/-! What the simulated world asks of its generator, and the fault menu drawn from it.
Everything the world leaves to chance is asked of a source that gives words and numbers
below a bound; the generator is one such source. -/

namespace CredSync.Sim

/-- A source of chance. -/
class Chance (Gen : Type) where
  nextU64 : Gen → UInt64 × Gen
  below : UInt32 → Gen → UInt32 × Gen
  below_lt : ∀ n rng, 0 < n → (below n rng).1 < n

namespace Chance

variable {Gen : Type} [Chance Gen]

/-- A number in `low..=high`, inclusive. Returns `low` if the range is inverted. -/
def range (low high : UInt32) (rng : Gen) : UInt32 × Gen :=
  if high ≤ low then (low, rng)
  else
    let (picked, rng) := below (high - low + 1) rng
    (low + picked, rng)

/-- True with probability `percent`/100. -/
def chance (percent : UInt32) (rng : Gen) : Bool × Gen :=
  if percent = 0 then (false, rng)
  else if 100 ≤ percent then (true, rng)
  else
    let (roll, rng) := below 100 rng
    (decide (roll < percent), rng)

/-- A signed offset in `-magnitude..=magnitude`. -/
def signed (magnitude : Int) (rng : Gen) : Int × Gen :=
  if magnitude ≤ 0 then (0, rng)
  else
    let span := UInt64.ofInt magnitude * 2 + 1
    let (word, rng) := nextU64 rng
    ((word % span).toInt64.toInt - magnitude, rng)

@[simp] theorem chance_zero (rng : Gen) : chance 0 rng = (false, rng) := rfl

/-- A drawn number stays in its range, unless the range is every number there is. -/
theorem range_bounds {low high : UInt32} (proper : high.toNat - low.toNat + 1 < 2 ^ 32) (rng : Gen) :
    low.toNat ≤ (range low high rng).1.toNat ∧
      (range low high rng).1.toNat ≤ max low.toNat high.toNat := by
  unfold range
  split
  · exact ⟨le_rfl, le_max_left _ _⟩
  · rename_i ordered
    have above : low.toNat < high.toNat := by
      rw [UInt32.le_iff_toNat_le] at ordered
      omega
    have span : (high - low + 1).toNat = high.toNat - low.toNat + 1 := by
      rw [UInt32.toNat_add, UInt32.toNat_sub_of_le high low (UInt32.le_iff_toNat_le.mpr above.le)]
      exact Nat.mod_eq_of_lt proper
    have positive : 0 < high - low + 1 := by
      rw [UInt32.lt_iff_toNat_lt, span]
      exact Nat.succ_pos _
    have drawn := UInt32.lt_iff_toNat_lt.mp (below_lt (high - low + 1) rng positive)
    rw [span] at drawn
    have fits := high.toNat_lt
    have sum : (low + (below (high - low + 1) rng).1).toNat =
        low.toNat + (below (high - low + 1) rng).1.toNat := by
      rw [UInt32.toNat_add]
      exact Nat.mod_eq_of_lt (by omega)
    change low.toNat ≤ (low + (below (high - low + 1) rng).1).toNat ∧
      (low + (below (high - low + 1) rng).1).toNat ≤ _
    rw [sum]
    omega

end Chance

/-! ### The generator as a source -/

namespace Rng

def Drawn.outcome : (drawn : Drawn) → Option (UInt32 × Rng)
  | .returned value next => some (value, next)
  | _ => none

theorem Drawn.outcome_get (drawn : Drawn) (found : drawn.outcome.isSome = true) :
    drawn = .returned (drawn.outcome.get found).1 (drawn.outcome.get found).2 := by
  cases drawn with
  | running => cases found
  | overflowed => cases found
  | returned value next => rfl

/-- A draw comes to an end, from every state. -/
theorem below_finishes (n : UInt32) (rng : Rng) :
    ∃ fuel, ((below n fuel rng).outcome).isSome = true := by
  unfold below
  split
  · exact ⟨0, rfl⟩
  · obtain ⟨enough, value, next, returned⟩ := belowLoop_returns rng
    exact ⟨enough, by rw [returned enough le_rfl]; rfl⟩

/-- `below`, with as many draws as it needs. -/
def drawBelow (n : UInt32) (rng : Rng) : UInt32 × Rng :=
  ((below n (Nat.find (below_finishes n rng)) rng).outcome).get
    (Nat.find_spec (below_finishes n rng))

theorem drawBelow_returned (n : UInt32) (rng : Rng) :
    ∃ fuel, below n fuel rng = .returned (drawBelow n rng).1 (drawBelow n rng).2 := by
  exact ⟨Nat.find (below_finishes n rng), Drawn.outcome_get _ _⟩

def nextU64 (rng : Rng) : UInt64 × Rng :=
  let (hi, rng) := rng.nextU32
  let (lo, rng) := rng.nextU32
  (hi.toUInt64 <<< 32 ||| lo.toUInt64, rng)

end Rng

instance : Chance Rng where
  nextU64 := Rng.nextU64
  below := Rng.drawBelow
  below_lt n rng positive := by
    obtain ⟨fuel, returned⟩ := Rng.drawBelow_returned n rng
    exact ((Rng.below_uniform positive).within returned).1

/-! ### The fault menu -/

/-- How likely each fault is, in percent unless noted. -/
structure FaultRates where
  /-- Drop one request in every so many; none at zero. -/
  dropEveryNth : UInt32
  duplicateResponse : UInt32
  reorderResponse : UInt32
  severMidBatch : UInt32
  malformedBytes : UInt32
  connectivityFlap : UInt32
  storageFailBeforeCommit : UInt32
  storageCommitThenKill : UInt32
  serverRestart : UInt32
  deviceRestart : UInt32
  storageLieAboutCommit : UInt32
  overload : UInt32
  slowCommit : UInt32
  protocolViolation : UInt32
  /-- Milliseconds of network latency, drawn from this range. -/
  latencyMs : UInt32 × UInt32

namespace FaultRates

/-- The standing distribution. -/
def standing : FaultRates where
  dropEveryNth := 7
  duplicateResponse := 12
  reorderResponse := 12
  severMidBatch := 6
  malformedBytes := 5
  connectivityFlap := 4
  storageFailBeforeCommit := 6
  storageCommitThenKill := 4
  serverRestart := 2
  deviceRestart := 3
  storageLieAboutCommit := 5
  overload := 6
  slowCommit := 8
  protocolViolation := 5
  latencyMs := (20, 2000)

/-- A world with no faults at all. -/
def none : FaultRates where
  dropEveryNth := 0
  duplicateResponse := 0
  reorderResponse := 0
  severMidBatch := 0
  malformedBytes := 0
  connectivityFlap := 0
  storageFailBeforeCommit := 0
  storageCommitThenKill := 0
  serverRestart := 0
  deviceRestart := 0
  storageLieAboutCommit := 0
  overload := 0
  slowCommit := 0
  protocolViolation := 0
  latencyMs := (10, 10)

end FaultRates

section Decisions

variable {Gen : Type} [Chance Gen]

open Chance

/-- What happens to one response in flight. Every draw is made, whichever of them counts. -/
def decideResponse (rng : Gen) (rates : FaultRates) (requestIndex : Nat) : Option Fault × Gen :=
  let (duplicate, rng) := chance rates.duplicateResponse rng
  let (reorder, rng) := chance rates.reorderResponse rng
  let (sever, rng) := chance rates.severMidBatch rng
  let (malformed, rng) := chance rates.malformedBytes rng
  let dropped := 0 < rates.dropEveryNth ∧ rates.dropEveryNth.toNat ∣ requestIndex
  let fault :=
    if dropped then some .dropped
    else if malformed then some .malformed
    else if sever then some .severed
    else if duplicate then some .duplicated
    else if reorder then some .reordered
    else none
  (fault, rng)

/-- What happens to one storage transaction. -/
def decideStorage (rng : Gen) (rates : FaultRates) : Option Fault × Gen :=
  let (fail, rng) := chance rates.storageFailBeforeCommit rng
  let (kill, rng) := chance rates.storageCommitThenKill rng
  let (lie, rng) := chance rates.storageLieAboutCommit rng
  let fault :=
    if fail then some .storageFailed
    else if kill then some .storageCommittedThenKilled
    else if lie then some .storageLiedAboutCommit
    else none
  (fault, rng)

@[simp] theorem decideResponse_none (rng : Gen) (requestIndex : Nat) :
    decideResponse rng .none requestIndex = (none, rng) := rfl

@[simp] theorem decideStorage_none (rng : Gen) : decideStorage rng .none = (none, rng) := rfl

end Decisions

end CredSync.Sim
