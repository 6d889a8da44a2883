import Mathlib.Logic.Relation

/-! Finite executions of a labelled transition relation. A run remembers the
labels it took, so a condition on the whole history can be stated about it. -/

namespace Transition

universe u v
variable {State : Type u} {Label : Type v}

/-- A finite execution: the labels taken, in order, between two states. -/
inductive Run (step : State → Label → State → Prop) : State → List Label → State → Prop where
  | done : Run step state [] state
  | next (first : step before label middle) (rest : Run step middle labels final) :
      Run step before (label :: labels) final

/-- The steps that meet a condition on the state before them and on their label. -/
def Guarded (step : State → Label → State → Prop) (condition : State → Label → Prop)
    (before : State) (label : Label) (after : State) : Prop :=
  condition before label ∧ step before label after

variable {step other : State → Label → State → Prop}

theorem Run.single (taken : step before label after) : Run step before [label] after :=
  .next taken .done

theorem Run.append (first : Run step start before middle) (second : Run step middle after final) :
    Run step start (before ++ after) final := by
  induction first with
  | done => exact second
  | next taken _ ih => exact .next taken (ih second)

/-- A run can be cut anywhere in its labels. -/
theorem Run.of_append (run : Run step start (before ++ after) final) :
    ∃ middle, Run step start before middle ∧ Run step middle after final := by
  induction before generalizing start with
  | nil => exact ⟨start, .done, run⟩
  | cons label rest ih =>
    cases run with
    | next taken remaining =>
      obtain ⟨middle, first, second⟩ := ih remaining
      exact ⟨middle, .next taken first, second⟩

/-- The steps of an executable transition function, taken while they are allowed. -/
def follow (allowed : State → Label → Bool) (next : State → Label → Option State) :
    State → List Label → Option State
  | state, [] => some state
  | state, label :: rest =>
    if allowed state label then (next state label).bind (follow allowed next · rest) else none

theorem Run.of_follow {allowed : State → Label → Bool} {next : State → Label → Option State}
    (taken : ∀ before label after, allowed before label = true → next before label = some after →
      step before label after)
    (followed : follow allowed next start labels = some final) : Run step start labels final := by
  induction labels generalizing start with
  | nil =>
    cases followed
    exact .done
  | cons label rest ih =>
    unfold follow at followed
    split at followed
    · obtain ⟨middle, moved, remaining⟩ := Option.bind_eq_some_iff.mp followed
      exact .next (taken _ _ _ ‹_› moved) (ih remaining)
    · cases followed

/-- What a run that was followed to its end has reached. -/
theorem Run.of_follow_any {allowed : State → Label → Bool} {next : State → Label → Option State}
    {test : State → Bool}
    (taken : ∀ before label after, allowed before label = true → next before label = some after →
      step before label after)
    (found : (follow allowed next start labels).any test = true) :
    ∃ final, Run step start labels final ∧ test final = true := by
  obtain ⟨final, followed, passes⟩ := (Option.any_eq_true ..).mp found
  exact ⟨final, .of_follow taken followed, passes⟩

/-- A property kept by every step holds at the end of a run that starts in it. -/
theorem Run.invariant {holds : State → Prop}
    (kept : ∀ before label after, holds before → step before label after → holds after)
    (run : Run step start labels final) (initially : holds start) : holds final := by
  induction run with
  | done => exact initially
  | next taken _ ih => exact ih (kept _ _ _ initially taken)

/-- A reflexive and transitive relation between the two ends of a step, under
an invariant of the run, relates the two ends of the run. -/
theorem Run.relates {holds : State → Prop} {related : State → State → Prop}
    (refl : ∀ state, related state state)
    (trans : ∀ first second third, related first second → related second third →
      related first third)
    (kept : ∀ before label after, holds before → step before label after → holds after)
    (steps : ∀ before label after, holds before → step before label after → related before after)
    (run : Run step start labels final) (initially : holds start) : related start final := by
  induction run with
  | done => exact refl _
  | next taken _ ih =>
    exact trans _ _ _ (steps _ _ _ initially taken) (ih (kept _ _ _ initially taken))

/-- An invariant that may speak of the labels taken so far. -/
theorem Run.history {holds : List Label → State → Prop}
    (kept : ∀ past before label after, holds past before → step before label after →
      holds (past ++ [label]) after)
    (run : Run step start labels final) (initially : holds past start) :
    holds (past ++ labels) final := by
  induction run generalizing past with
  | done => simpa using initially
  | next taken _ ih => simpa using ih (kept _ _ _ _ initially taken)

/-- What steps of one kind spend, and no other step gives back, bounds how many of them a run
takes. -/
theorem Run.countP_le {counts : Label → Bool} {budget : State → Nat}
    (spends : ∀ before label after, step before label after → counts label = true →
      budget after < budget before)
    (keeps : ∀ before label after, step before label after → counts label = false →
      budget after ≤ budget before)
    (run : Run step start labels final) : labels.countP counts + budget final ≤ budget start := by
  induction run with
  | done => simp
  | next first rest ih =>
    rename_i before label middle labels final
    cases kind : counts label with
    | true =>
      have spent := spends before label middle first kind
      rw [List.countP_cons_of_pos kind]
      omega
    | false =>
      have kept := keeps before label middle first kind
      rw [List.countP_cons_of_neg (by simp [kind])]
      omega

end Transition
