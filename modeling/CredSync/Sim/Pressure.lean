import CredSync.Sim.Chance

/-! A server under load delivers less and looks at fewer commands. It never looks at none:
a push makes progress however heavy the load is. -/

namespace CredSync.Sim

inductive Load where
  | normal
  | shedding (stepsLeft : UInt32)
  deriving DecidableEq

/-- The load of a server, and what it does about it. -/
structure Pressure where
  load : Load := .normal
  /-- Divides the byte budget while shedding. -/
  severity : UInt32 := 1
  deferredCommands : Nat := 0
  episodes : Nat := 0
  positive : 0 < severity := by decide

namespace Pressure

def default : Pressure := {}

def simBudgetBytes : Nat := 2048
def minBudgetBytes : Nat := 256

def isShedding (pressure : Pressure) : Bool :=
  match pressure.load with
  | .normal => false
  | .shedding _ => true

/-- Advances one step, easing off at the end of an episode. -/
def tick (pressure : Pressure) : Pressure :=
  match pressure.load with
  | .normal => pressure
  | .shedding stepsLeft =>
    if stepsLeft ≤ 1 then { pressure with load := .normal, severity := 1, positive := by decide }
    else { pressure with load := .shedding (stepsLeft - 1) }

/-- The byte budget to serve a pull under. -/
def budgetBytes (pressure : Pressure) : Nat :=
  match pressure.load with
  | .normal => simBudgetBytes
  | .shedding _ => max minBudgetBytes (simBudgetBytes / pressure.severity.toNat)

/-- How many of the offered commands a push has looked at. -/
def acceptCount (pressure : Pressure) (offered : Nat) : Nat × Pressure :=
  if offered = 0 then (0, pressure)
  else
    let taken := match pressure.load with
      | .normal => offered
      | .shedding _ => max (offered / pressure.severity.toNat) 1
    (taken, { pressure with deferredCommands := pressure.deferredCommands + (offered - taken) })

section Overload

variable {Gen : Type} [Chance Gen]

open Chance

/-- A load of seven severities, for up to thirty steps. -/
def overload (pressure : Pressure) (rng : Gen) : Pressure × Gen :=
  let severity := range 2 8 rng
  let stepsLeft := range 3 30 severity.2
  ({ pressure with
      load := .shedding stepsLeft.1
      severity := severity.1
      episodes := pressure.episodes + 1
      positive := by
        have least := (@range_bounds _ _ 2 8 (by decide) rng).1
        exact UInt32.lt_iff_toNat_lt.mpr (Nat.lt_of_lt_of_le (by decide) least) }, stepsLeft.2)

end Overload

theorem budgetBytes_bounds (pressure : Pressure) :
    minBudgetBytes ≤ pressure.budgetBytes ∧ pressure.budgetBytes ≤ simBudgetBytes := by
  unfold budgetBytes
  split
  · exact ⟨by decide, le_rfl⟩
  · exact ⟨le_max_left _ _, max_le (by decide) (Nat.div_le_self _ _)⟩

/-- A push of anything has at least one of its commands looked at. -/
theorem acceptCount_bounds (pressure : Pressure) {offered : Nat} (some : 0 < offered) :
    0 < (pressure.acceptCount offered).1 ∧ (pressure.acceptCount offered).1 ≤ offered := by
  rw [acceptCount, if_neg some.ne']
  simp only
  split
  · exact ⟨some, le_rfl⟩
  · exact ⟨Nat.lt_of_lt_of_le Nat.one_pos (le_max_right _ _),
      max_le (Nat.div_le_self _ _) some⟩

end Pressure

end CredSync.Sim
