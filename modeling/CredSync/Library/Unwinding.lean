import Mathlib.Data.List.Basic

/-! Unwinding. A machine answers events one after another. Where the events that an observer may
not know about leave states alike to that observer, its answers are those of a run in which
nothing else ever happened. -/

namespace Unwinding

universe u v w

/-- A machine that takes events one after another, and answers each of them. -/
structure Machine (State : Type u) (Event : Type v) (Answer : Type w) where
  next : State → Event → State
  answer : State → Event → Answer

namespace Machine

variable {State : Type u} {Event : Type v} {Answer : Type w}

/-- The answers to those events that are seen. -/
def answers (machine : Machine State Event Answer) (seen : Event → Bool) :
    State → List Event → List Answer
  | _, [] => []
  | state, event :: rest =>
    if seen event then machine.answer state event :: machine.answers seen (machine.next state event) rest
    else machine.answers seen (machine.next state event) rest

/-- What is not seen leaves states alike, and what is seen is answered alike where they are. -/
structure Unwinds (machine : Machine State Event Answer) (seen : Event → Bool)
    (alike : State → State → Prop) : Prop where
  hidden : ∀ first second event, seen event = false → alike first second →
    alike (machine.next first event) second
  forward : ∀ first second event, seen event = true → alike first second →
    alike (machine.next first event) (machine.next second event)
  answered : ∀ first second event, seen event = true → alike first second →
    machine.answer first event = machine.answer second event

variable {machine : Machine State Event Answer} {seen : Event → Bool} {alike : State → State → Prop}

/-- The answers are those of a run without whatever is not seen. -/
theorem Unwinds.erased (unwinds : machine.Unwinds seen alike) {first second : State}
    (same : alike first second) (events : List Event) :
    machine.answers seen first events = machine.answers seen second (events.filter seen) := by
  induction events generalizing first second with
  | nil => rfl
  | cons event rest ih =>
    cases look : seen event with
    | true =>
      rw [List.filter_cons_of_pos look, answers, answers, if_pos look, if_pos look,
        unwinds.answered first second event look same, ih (unwinds.forward first second event look same)]
    | false =>
      rw [List.filter_cons_of_neg (by simp [look]), answers, if_neg (by simp [look])]
      exact ih (unwinds.hidden first second event look same)

/-- Runs in which the same is seen give the same answers. -/
theorem Unwinds.indistinguishable (unwinds : machine.Unwinds seen alike)
    (refl : ∀ state, alike state state) {first second : State} (same : alike first second)
    {events others : List Event} (matched : events.filter seen = others.filter seen) :
    machine.answers seen first events = machine.answers seen second others := by
  rw [unwinds.erased same, matched, unwinds.erased (refl second) others]

end Machine

end Unwinding
