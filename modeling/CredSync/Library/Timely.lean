import Mathlib.Algebra.Order.Ring.Int
import Mathlib.Data.List.Basic

/-! A queue of timed items that is looked at once in every period. As long as an item comes
due within one period of being queued, or within two and behind all the rest of its period,
nothing overtakes: what is due is always the first part of the queue. -/

namespace Timely

universe u
variable {Item : Type u} (dueAt : Item → Int) (period now : Int)

/-- The items of a queue that will be due at the next look, and behind them those that will
be due at the one after. -/
def Queued (queue : List Item) : Prop :=
  ∃ soon later, queue = soon ++ later ∧ (∀ item ∈ soon, dueAt item ≤ now + period) ∧
    ∀ item ∈ later, now + period < dueAt item ∧ dueAt item ≤ now + 2 * period

variable {dueAt period now} {queue prompt slow : List Item}

theorem queued_nil : Queued dueAt period now ([] : List Item) :=
  ⟨[], [], rfl, nofun, nofun⟩

/-- One period later, what has been queued meanwhile included: the queue is what is due,
followed by what waits on. -/
theorem Queued.look (queued : Queued dueAt period now queue)
    (prompted : ∀ item ∈ prompt, now + period < dueAt item ∧ dueAt item ≤ now + 2 * period)
    (slowed : ∀ item ∈ slow, now + 2 * period < dueAt item ∧ dueAt item ≤ now + 3 * period) :
    ∃ due waiting, queue ++ prompt ++ slow = due ++ waiting ∧
      (queue ++ prompt ++ slow).filter (fun item => decide (dueAt item ≤ now + period)) = due ∧
      (queue ++ prompt ++ slow).filter (fun item => !decide (dueAt item ≤ now + period)) =
        waiting ∧
      Queued dueAt period (now + period) waiting := by
  obtain ⟨soon, later, rfl, ready, behind⟩ := queued
  have whole : soon ++ later ++ prompt ++ slow = soon ++ (later ++ prompt ++ slow) := by
    simp only [List.append_assoc]
  have wait : ∀ item ∈ later ++ prompt ++ slow, now + period < dueAt item := by
    intro item member
    rcases List.mem_append.mp member with member | member
    · rcases List.mem_append.mp member with member | member
      · exact (behind item member).1
      · exact (prompted item member).1
    · have := slowed item member
      omega
  have due : ∀ item ∈ soon, decide (dueAt item ≤ now + period) = true := fun item member =>
    decide_eq_true (ready item member)
  have notDue : ∀ item ∈ later ++ prompt ++ slow, decide (dueAt item ≤ now + period) = false :=
    fun item member => decide_eq_false (not_le.mpr (wait item member))
  refine ⟨soon, later ++ prompt ++ slow, whole, ?_, ?_, later ++ prompt, slow, rfl, ?_, ?_⟩
  · rw [whole, List.filter_append, List.filter_eq_self.mpr due, List.filter_eq_nil_iff.mpr
      (fun item member => by rw [notDue item member]; exact Bool.false_ne_true), List.append_nil]
  · rw [whole, List.filter_append, List.filter_eq_nil_iff.mpr
      (fun item member => by rw [due item member]; exact Bool.false_ne_true),
      List.filter_eq_self.mpr (fun item member => by rw [notDue item member]; rfl),
      List.nil_append]
  · intro item member
    rcases List.mem_append.mp member with member | member
    · have := (behind item member).2
      omega
    · have := (prompted item member).2
      omega
  · intro item member
    have := slowed item member
    omega

end Timely
