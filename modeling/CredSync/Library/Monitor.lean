import Mathlib.Data.List.Induction

/-! Monitors that judge each event as it comes, from a summary of the past. The events
of several keys arrive interleaved; each key has a history and a summary of its own. -/

universe u v w

namespace Monitor

variable {State : Type u} {Key : Type v} {Event : Type w}

/-- Every event follows from what came before it. -/
def Good (follows : List Event → Event → Prop) (history : List Event) : Prop :=
  ∀ before event after, history = before ++ event :: after → follows before event

variable {follows : List Event → Event → Prop}

theorem good_nil : Good follows [] := by
  intro before event after split
  exact absurd split (by simp)

theorem good_concat {history : List Event} {event : Event} :
    Good follows (history ++ [event]) ↔ Good follows history ∧ follows history event := by
  constructor
  · intro good
    refine ⟨?_, good history event [] rfl⟩
    intro before earlier after split
    exact good before earlier (after ++ [event]) (by rw [split, List.append_assoc, List.cons_append])
  · rintro ⟨good, last⟩ before earlier after split
    cases after using List.reverseRecOn with
    | nil =>
      obtain ⟨same, final⟩ := List.append_inj' split rfl
      cases final
      rw [← same]
      exact last
    | append_singleton after final =>
      rw [← List.cons_append, ← List.append_assoc] at split
      exact good before earlier after (List.append_inj' split rfl).1

/-- A condition on each event alone. -/
theorem good_forall {holds : Event → Prop} {history : List Event} :
    Good (fun _ event => holds event) history ↔ ∀ event ∈ history, holds event := by
  constructor
  · intro good event member
    obtain ⟨before, after, split⟩ := List.append_of_mem member
    exact good before event after split
  · intro all before event after split
    exact all event (split ▸ List.mem_append_right before List.mem_cons_self)

/-- A condition on each event and every one before it. -/
theorem good_pairwise {related : Event → Event → Prop} {history : List Event} :
    Good (fun before event => ∀ earlier ∈ before, related earlier event) history ↔
      history.Pairwise related := by
  induction history using List.reverseRecOn with
  | nil => exact iff_of_true good_nil .nil
  | append_singleton history event ih =>
    rw [good_concat, ih, List.pairwise_append]
    simp only [List.pairwise_singleton, List.mem_singleton, forall_eq, true_and]

theorem good_and {also : List Event → Event → Prop} {history : List Event} :
    Good (fun before event => follows before event ∧ also before event) history ↔
      Good follows history ∧ Good also history := by
  constructor
  · intro good
    exact ⟨fun before event after split => (good before event after split).1,
      fun before event after split => (good before event after split).2⟩
  · rintro ⟨first, second⟩ before event after split
    exact ⟨first before event after split, second before event after split⟩

variable [DecidableEq Key]

/-- The events of one key, in order. -/
def historyOf (key : Key) (events : List (Key × Event)) : List Event :=
  (events.filter fun event => event.1 = key).map Prod.snd

theorem historyOf_concat_same (key : Key) (events : List (Key × Event)) (event : Event) :
    historyOf key (events ++ [(key, event)]) = historyOf key events ++ [event] := by
  simp [historyOf]

theorem historyOf_concat_other {key other : Key} (different : key ≠ other)
    (events : List (Key × Event)) (event : Event) :
    historyOf other (events ++ [(key, event)]) = historyOf other events := by
  simp [historyOf, different]

theorem historyOf_append (key : Key) (first second : List (Key × Event)) :
    historyOf key (first ++ second) = historyOf key first ++ historyOf key second := by
  rw [historyOf, List.filter_append, List.map_append]
  rfl

theorem historyOf_flatMap {Round : Type*} (key : Key) (rounds : List Round)
    (events : Round → List (Key × Event)) :
    historyOf key (rounds.flatMap events) = rounds.flatMap fun round => historyOf key (events round) := by
  induction rounds with
  | nil => rfl
  | cons round rest ih => rw [List.flatMap_cons, List.flatMap_cons, historyOf_append, ih]

/-- One event of each key, keyed by position. -/
def numbered (start : Nat) (events : List Event) : List (Nat × Event) :=
  (events.zipIdx start).map fun entry => (entry.2, entry.1)

theorem historyOf_numbered (key start : Nat) (events : List Event) :
    historyOf key (numbered start events) =
      if start ≤ key then events[key - start]?.toList else [] := by
  induction events generalizing start with
  | nil => simp [numbered, historyOf]
  | cons event rest ih =>
    have unfolded : numbered start (event :: rest) = [(start, event)] ++ numbered (start + 1) rest := by
      rw [numbered, List.zipIdx_cons, List.map_cons]
      rfl
    rw [unfolded, historyOf_append, ih]
    rcases Nat.lt_trichotomy start key with before | here | after
    · have other : historyOf key [(start, event)] = [] := by
        simp [historyOf, Nat.ne_of_lt before]
      have position : key - start = (key - (start + 1)) + 1 := by omega
      rw [other, if_pos (Nat.succ_le_of_lt before), if_pos (Nat.le_of_lt before), position, List.getElem?_cons_succ,
        List.nil_append]
    · subst here
      rw [if_neg (Nat.not_succ_le_self start), if_pos (Nat.le_refl start)]
      simp [historyOf]
    · have other : historyOf key [(start, event)] = [] := by
        simp [historyOf, Nat.ne_of_gt after]
      rw [other, if_neg (by omega), if_neg (by omega)]
      rfl

/-- A monitor that stays silent on an event exactly when the event follows from the history
its summary stands for. -/
structure Exact (step : State → Key × Event → State) (silent : State → Prop)
    (summary : Key → State → List Event → Prop) (follows : List Event → Event → Prop) : Prop where
  persists : ∀ state event, silent (step state event) → silent state
  judges : ∀ state key event history, silent state → summary key state history →
    (silent (step state (key, event)) ↔ follows history event)
  keeps : ∀ state key event history, silent state → summary key state history →
    silent (step state (key, event)) → summary key (step state (key, event)) (history ++ [event])
  apart : ∀ state key other event history, key ≠ other → summary other state history →
    summary other (step state (key, event)) history

variable {step : State → Key × Event → State} {silent : State → Prop}
  {summary : Key → State → List Event → Prop}

/-- An exact monitor is silent to the end exactly on the events whose histories are good. -/
theorem Exact.run (exact : Exact step silent summary follows) {start : State}
    (initially : silent start) (blank : ∀ key, summary key start []) (events : List (Key × Event)) :
    silent (events.foldl step start) ↔ ∀ key, Good follows (historyOf key events) := by
  have both : (silent (events.foldl step start) ↔ ∀ key, Good follows (historyOf key events)) ∧
      (silent (events.foldl step start) →
        ∀ key, summary key (events.foldl step start) (historyOf key events)) := by
    induction events using List.reverseRecOn with
    | nil => exact ⟨iff_of_true initially fun _ => good_nil, fun _ => blank⟩
    | append_singleton events event ih =>
      obtain ⟨key, event⟩ := event
      obtain ⟨judged, summed⟩ := ih
      rw [List.foldl_append, List.foldl_cons, List.foldl_nil]
      refine ⟨⟨?_, ?_⟩, ?_⟩
      · intro quiet other
        have before := exact.persists _ _ quiet
        by_cases same : key = other
        · subst same
          rw [historyOf_concat_same, good_concat]
          exact ⟨judged.mp before key,
            (exact.judges _ key event _ before (summed before key)).mp quiet⟩
        · rw [historyOf_concat_other same]
          exact judged.mp before other
      · intro good
        have before : silent (events.foldl step start) := by
          apply judged.mpr
          intro other
          by_cases same : key = other
          · subst same
            have here := good key
            rw [historyOf_concat_same, good_concat] at here
            exact here.1
          · have here := good other
            rwa [historyOf_concat_other same] at here
        have here := good key
        rw [historyOf_concat_same, good_concat] at here
        exact (exact.judges _ key event _ before (summed before key)).mpr here.2
      · intro quiet other
        have before := exact.persists _ _ quiet
        by_cases same : key = other
        · subst same
          rw [historyOf_concat_same]
          exact exact.keeps _ key event _ before (summed before key) quiet
        · rw [historyOf_concat_other same]
          exact exact.apart _ key other event _ same (summed before other)
  exact both.1

end Monitor
