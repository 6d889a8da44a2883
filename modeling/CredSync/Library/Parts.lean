import Mathlib.Data.List.Basic

/-! Operations that each read and write one part of a state. In whatever order they are
taken, as long as the order within each part is kept, they answer the same and leave the
same parts. -/

namespace Parts

universe u v w x y
variable {State : Type u} {Op : Type v} {Reply : Type w} {Part : Type x} {View : Type y}

def run (step : State → Op → State) (state : State) (ops : List Op) : State :=
  ops.foldl step state

/-- Each operation with its answer. -/
def replies (step : State → Op → State) (reply : State → Op → Reply) :
    State → List Op → List (Op × Reply)
  | _, [] => []
  | state, op :: rest => (op, reply state op) :: replies step reply (step state op) rest

/-- Each operation that is legal keeps to its part: it changes no other, and what it makes
of its own and answers depends on that part alone. -/
structure Separate (step : State → Op → State) (reply : State → Op → Reply) (part : Op → Part)
    (view : Part → State → View) (legal : State → Op → Prop) : Prop where
  keeps : legal state op → legal state later → legal (step state op) later
  frame : legal state op → other ≠ part op → view other (step state op) = view other state
  reads : legal state op → legal state' op → view (part op) state = view (part op) state' →
    reply state op = reply state' op ∧
      view (part op) (step state op) = view (part op) (step state' op)

variable [DecidableEq Part] {step : State → Op → State} {reply : State → Op → Reply}
  {part : Op → Part} {view : Part → State → View} {legal : State → Op → Prop}
  (separate : Separate step reply part view legal)
include separate

/-- Operations on different parts commute. -/
theorem Separate.commute (first : legal state one) (second : legal state two)
    (apart : part one ≠ part two) :
    reply (step state two) one = reply state one ∧ reply (step state one) two = reply state two ∧
      ∀ p, view p (step (step state one) two) = view p (step (step state two) one) := by
  have aside : view (part one) (step state two) = view (part one) state :=
    separate.frame second apart
  have beside : view (part two) (step state one) = view (part two) state :=
    separate.frame first apart.symm
  obtain ⟨answer, left⟩ := separate.reads (separate.keeps second first) first aside
  obtain ⟨answer', left'⟩ := separate.reads (separate.keeps first second) second beside
  refine ⟨answer, answer', fun p => ?_⟩
  by_cases here : p = part two
  · rw [here, left', separate.frame (separate.keeps second first) apart.symm]
  · rw [separate.frame (separate.keeps first second) here]
    by_cases there : p = part one
    · rw [there, left]
    · rw [separate.frame (separate.keeps second first) there, separate.frame first there,
        separate.frame second here]

/-- Each part ends, and is answered, as if its own operations had run alone. -/
theorem Separate.alone (allowed : ∀ op ∈ ops, legal state op)
    (allowed' : ∀ op ∈ ops, part op = p → legal state' op) (same : view p state = view p state') :
    view p (run step state ops) = view p (run step state' (ops.filter (part · = p))) ∧
      (replies step reply state ops).filter (part ·.1 = p) =
        replies step reply state' (ops.filter (part · = p)) := by
  induction ops generalizing state state' with
  | nil => exact ⟨same, rfl⟩
  | cons op rest ih =>
    have first : legal state op := allowed op List.mem_cons_self
    have onward : ∀ later ∈ rest, legal (step state op) later := by
      intro later member
      exact separate.keeps first (allowed later (List.mem_cons_of_mem op member))
    by_cases here : part op = p
    · have first' := allowed' op List.mem_cons_self here
      subst here
      obtain ⟨answer, left⟩ := separate.reads first first' same
      have onward' : ∀ later ∈ rest, part later = part op → legal (step state' op) later := by
        intro later member own
        exact separate.keeps first' (allowed' later (List.mem_cons_of_mem op member) own)
      obtain ⟨ends, answers⟩ := ih onward onward' left
      simp only [replies, List.filter_cons, decide_true, if_true, answer]
      exact ⟨ends, congrArg (_ :: ·) answers⟩
    · have aside : view p (step state op) = view p state' :=
        (separate.frame first (Ne.symm here)).trans same
      obtain ⟨ends, answers⟩ := ih onward
        (fun later member => allowed' later (List.mem_cons_of_mem op member)) aside
      simp only [replies, List.filter_cons, here, decide_false, Bool.false_eq_true, if_false]
      exact ⟨ends, answers⟩

/-- Two orders that agree on each part leave the same parts and give the same answers. -/
theorem Separate.reorder (allowed : ∀ op ∈ ops, legal state op)
    (allowed' : ∀ op ∈ ops', legal state op)
    (same : ∀ p, ops.filter (part · = p) = ops'.filter (part · = p)) :
    (∀ p, view p (run step state ops) = view p (run step state ops')) ∧
      ∀ answered, answered ∈ replies step reply state ops ↔
        answered ∈ replies step reply state ops' := by
  have both : ∀ p, view p (run step state ops) = view p (run step state ops') ∧
      (replies step reply state ops).filter (part ·.1 = p) =
        (replies step reply state ops').filter (part ·.1 = p) := by
    intro p
    obtain ⟨ends, answers⟩ := separate.alone allowed (fun op member _ => allowed op member) rfl
    obtain ⟨ends', answers'⟩ := separate.alone allowed' (fun op member _ => allowed' op member) rfl
    rw [ends, ends', answers, answers', same]
    exact ⟨rfl, rfl⟩
  refine ⟨fun p => (both p).1, fun answered => ?_⟩
  have member := congrArg (answered ∈ ·) (both (part answered.1)).2
  simpa using member

end Parts
