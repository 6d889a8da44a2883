import CredSync.Sim.Server

/-! The simulated dedupe table beside the real one. Both judge a submission by one rule, but
the simulated server also records a refusal, over whatever it had recorded before. -/

namespace CredSync.Sim

open Transition

/-! ### What the simulated server remembers -/

namespace Server

variable {server after asked : Server} {command : Command} {roll : Nat}

theorem takeSeq_dedupe (taken : server.takeSeq = some (seq, after)) :
    after.dedupe = server.dedupe := by
  unfold takeSeq at taken
  split at taken
  · cases taken
    rfl
  · cases taken

theorem writeRow_dedupe (written : server.writeRow scope entity entityId = some (seq, after)) :
    after.dedupe = server.dedupe := by
  obtain ⟨⟨_, moved⟩, taken, same⟩ := Option.map_eq_some_iff.mp written
  cases same
  have kept := takeSeq_dedupe taken
  exact kept

theorem hostDecision_dedupe (decided : server.hostDecision command roll = some (outcome, asked)) :
    asked.dedupe = server.dedupe := by
  unfold hostDecision at decided
  split at decided
  · cases decided
    rfl
  · split at decided
    · obtain ⟨⟨_, moved⟩, written, same⟩ := Option.map_eq_some_iff.mp decided
      cases same
      exact writeRow_dedupe written
    · split at decided <;> cases decided <;> rfl

/-- A simulated host never gives the reason of a refused replay. -/
theorem hostDecision_reason (decided : server.hostDecision command roll = some (outcome, asked)) :
    (outcome.result command.id).reason ≠ some Dedupe.mutatedReason := by
  unfold hostDecision at decided
  split at decided
  · cases decided
    simp [HostOutcome.result, unknownCommand, Dedupe.mutatedReason]
  · split at decided
    · obtain ⟨_, _, same⟩ := Option.map_eq_some_iff.mp decided
      cases same
      exact nofun
    · split at decided
      · cases decided
        exact nofun
      · cases decided
        simp [HostOutcome.result, deadlinePassed, Dedupe.mutatedReason]

theorem recorded_dedupe (same : after.dedupe = server.dedupe) (id : CommandId) :
    after.recorded id = server.recorded id := by
  rw [recorded, recorded, same]

section Answer

variable [Hashing]

theorem recorded_remember (server : Server) (command : Command) (result : CommandResult)
    (id : CommandId) : (server.remember command result).recorded id =
      if id = command.id then some ⟨(payloadChecksum command.payload).bytes, result⟩
      else server.recorded id := by
  rw [recorded, remember, Table.lookup_insert_if]
  split <;> rfl

theorem applyCommand_replayed {known : Recorded} (held : server.recorded command.id = some known)
    (same : known.checksum = (payloadChecksum command.payload).bytes) :
    server.applyCommand command roll = some (known.result, server) := by
  simp [applyCommand, held, Dedupe.decide, same]

theorem applyCommand_reused {known : Recorded} (held : server.recorded command.id = some known)
    (different : known.checksum ≠ (payloadChecksum command.payload).bytes) :
    server.applyCommand command roll =
      some (refusal command, server.remember command (refusal command)) := by
  simp [applyCommand, held, Dedupe.decide, different, refusal]

/-- What the simulated server does with one command: it asks its host about a fresh one,
replays what it recorded for this body, and records the refusal of any other body. -/
theorem applyCommand_cases (answered : server.applyCommand command roll = some (result, after)) :
    (server.recorded command.id = none ∧ ∃ outcome asked,
      server.hostDecision command roll = some (outcome, asked) ∧
        result = outcome.result command.id ∧ after = asked.remember command result) ∨
      ∃ known, server.recorded command.id = some known ∧
        ((known.checksum = (payloadChecksum command.payload).bytes ∧ result = known.result ∧
            after = server) ∨
          (known.checksum ≠ (payloadChecksum command.payload).bytes ∧ result = refusal command ∧
            after = server.remember command result)) := by
  cases held : server.recorded command.id with
  | none =>
    simp only [applyCommand, held, Dedupe.decide] at answered
    obtain ⟨⟨outcome, asked⟩, decided, same⟩ := Option.map_eq_some_iff.mp answered
    cases same
    exact .inl ⟨rfl, outcome, asked, decided, rfl, rfl⟩
  | some known =>
    refine .inr ⟨known, rfl, ?_⟩
    by_cases same : known.checksum = (payloadChecksum command.payload).bytes
    · rw [applyCommand_replayed held same] at answered
      cases answered
      exact .inl ⟨same, rfl, rfl⟩
    · rw [applyCommand_reused held same] at answered
      cases answered
      exact .inr ⟨same, rfl, rfl⟩

/-- A submission is answered for its own id alone. -/
theorem applyCommand_other (answered : server.applyCommand command roll = some (result, after))
    {id : CommandId} (other : id ≠ command.id) : after.recorded id = server.recorded id := by
  rcases applyCommand_cases answered with ⟨_, outcome, asked, decided, _, rfl⟩ |
    ⟨known, _, ⟨_, _, rfl⟩ | ⟨_, _, rfl⟩⟩
  · rw [recorded_remember, if_neg other]
    exact recorded_dedupe (hostDecision_dedupe decided) id
  · rfl
  · rw [recorded_remember, if_neg other]

/-- The kind of answer a result is: decided now, replayed, or refused. -/
def judge (server : Server) (command : Command) (result : CommandResult) : Forwarded :=
  match Dedupe.decide command (server.recorded command.id) with
  | .fresh => .decided result
  | .replay _ => .replayed result
  | .mutated .. => .mutated result

end Answer

end Server

/-- Whether a move answers a command. -/
def Move.answers : Move → Bool
  | .applyCommand .. => true
  | _ => false

theorem Server.take_dedupe [Hashing] {server after : Server} {move : Move}
    (silent : move.answers = false) (taken : server.take move = some after) :
    after.dedupe = server.dedupe := by
  have upserted {scope : ScopeId} {entity : EntityName} {entityId : EntityId}
      (written : (server.writeRow scope entity entityId).map (·.2) = some after) :
      after.dedupe = server.dedupe := by
    obtain ⟨⟨seq, moved⟩, wrote, rfl⟩ := Option.map_eq_some_iff.mp written
    exact writeRow_dedupe wrote
  cases move with
  | registerCommand name entity scope =>
    cases taken
    rfl
  | holdNextWrite delay =>
    cases taken
    rfl
  | advanceCommits =>
    cases taken
    rfl
  | applyCommand command roll => cases silent
  | externalChange scope entity row => exact upserted taken
  | externalChangeTo scope entity entityId =>
    simp only [take, externalChangeTo] at taken
    split at taken
    · exact upserted taken
    · obtain ⟨⟨seq, moved⟩, took, rfl⟩ := Option.map_eq_some_iff.mp taken
      exact takeSeq_dedupe took
  | externalDelete scope entity entityId =>
    simp only [take, externalDelete] at taken
    split at taken
    · obtain ⟨⟨seq, moved⟩, took, rfl⟩ := Option.map_eq_some_iff.mp taken
      have kept := takeSeq_dedupe took
      exact kept
    · cases taken
      rfl

/-! ### Side by side -/

/-- The simulated server and the real one's table, given the same submissions. -/
structure Twins where
  simulated : Server := {}
  table : ResultTable := ∅

/-- One command for both, with the roll of the simulated host and the word of the real one. -/
structure Submission where
  command : Command
  roll : Nat
  outcome : HostOutcome

/-- What happens to the twins: a command reaches both, or the simulated server moves alone. -/
inductive TwinMove where
  | submit (submission : Submission)
  | move (move : Move)

/-- A fresh command gets the same decision from both hosts. -/
def Twins.SameHost (twins : Twins) (submission : Submission) : Prop :=
  twins.simulated.recorded submission.command.id = none → ∀ outcome asked,
    twins.simulated.hostDecision submission.command submission.roll = some (outcome, asked) →
      submission.outcome = outcome

section Twins

variable [Hashing]

inductive Twins.Step : Twins → TwinMove → Twins → Prop where
  | submit {simulated : Server} (host : Twins.SameHost twins submission)
      (answered : twins.simulated.applyCommand submission.command submission.roll =
        some (result, simulated)) :
      Twins.Step twins (.submit submission)
        ⟨simulated, (forward twins.table submission.command (.ok submission.outcome)).2⟩
  | move {simulated : Server} (silent : move.answers = false) (taken : twins.simulated.take move = some simulated) :
      Twins.Step twins (.move move) { twins with simulated := simulated }

/-- A step tells the sender of an id the same on both sides, and leaves the outcome
recorded for the id as it was. -/
structure Twins.Alike (id : CommandId) (twins : Twins) (taken : TwinMove) : Prop where
  answer : ∀ submission result simulated, taken = .submit submission → submission.command.id = id →
    twins.simulated.applyCommand submission.command submission.roll = some (result, simulated) →
    (forward twins.table submission.command (.ok submission.outcome)).1 =
      .ok (twins.simulated.judge submission.command result)
  recorded : ∀ after known, Twins.Step twins taken after →
    twins.simulated.recorded id = some known →
      (after.simulated.recorded id).map (·.result) = some known.result ∧
        (Dedupe.recorded after.table id).map (·.result) = some known.result

/-- No other body comes under an id that is recorded. -/
def Twins.Unmutated (id : CommandId) (twins : Twins) : TwinMove → Prop
  | .submit submission => submission.command.id = id → ∀ known,
      twins.simulated.recorded id = some known →
        known.checksum = (payloadChecksum submission.command.payload).bytes
  | .move _ => True

/-- What holds of the twins as long as an id is not reused: both know the same ids, and
have recorded the same for this one. -/
structure Twins.Agree (id : CommandId) (twins : Twins) : Prop where
  readable : Dedupe.Readable twins.table
  known : ∀ other, twins.simulated.recorded other = none ↔ Dedupe.recorded twins.table other = none
  same : twins.simulated.recorded id = Dedupe.recorded twins.table id
  decided : ∀ known, twins.simulated.recorded id = some known →
    known.result.reason ≠ some Dedupe.mutatedReason

variable {id : CommandId} {twins after : Twins} {taken : TwinMove}

theorem Twins.Agree.step (agree : twins.Agree id) (unmutated : twins.Unmutated id taken)
    (step : Twins.Step twins taken after) : after.Agree id ∧ ∀ known,
      twins.simulated.recorded id = some known → after.simulated.recorded id = some known := by
  cases step with
  | move silent moved =>
    have kept := Server.recorded_dedupe (Server.take_dedupe silent moved)
    exact ⟨⟨agree.readable, fun other => by rw [kept]; exact agree.known other,
      by rw [kept]; exact agree.same, fun known held => agree.decided known (by rwa [kept] at held)⟩,
      fun known held => by rwa [kept]⟩
  | @submit submission result simulated host answered =>
    rcases forward_cases agree.readable submission.command submission.outcome with
      ⟨absent, table, forwarded, readable, recorded⟩ | ⟨stored, present, forwarded⟩
    · -- fresh on both sides: the same outcome is recorded
      have fresh := (agree.known submission.command.id).mpr absent
      rcases Server.applyCommand_cases answered with ⟨_, outcome, asked, decided, rfl, rfl⟩ |
        ⟨known, held, _⟩
      · have word := host fresh outcome asked decided
        have recorded' : ∀ other, (asked.remember submission.command
            (outcome.result submission.command.id)).recorded other =
              if other = submission.command.id then
                some ⟨(payloadChecksum submission.command.payload).bytes,
                  outcome.result submission.command.id⟩
              else twins.simulated.recorded other := by
          intro other
          rw [Server.recorded_remember,
            Server.recorded_dedupe (Server.hostDecision_dedupe decided)]
        rw [forwarded]
        rw [word] at recorded
        refine ⟨⟨readable, fun other => ?_, ?_, fun known held => ?_⟩, fun known held => ?_⟩
        · rw [recorded', recorded]
          split
          · simp
          · exact agree.known other
        · rw [recorded', recorded]
          split
          · rfl
          · exact agree.same
        · rw [recorded'] at held
          split at held
          · cases held
            exact Server.hostDecision_reason decided
          · exact agree.decided known held
        · rw [recorded', if_neg]
          · exact held
          · rintro rfl
            rw [fresh] at held
            cases held
      · rw [fresh] at held
        cases held
    · rw [forwarded]
      rcases Server.applyCommand_cases answered with ⟨fresh, _⟩ |
        ⟨known, held, ⟨_, _, rfl⟩ | ⟨different, _, rfl⟩⟩
      · rw [(agree.known _).mp fresh] at present
        cases present
      · exact ⟨agree, fun _ held => held⟩
      · -- a reused id is another one
        have other : id ≠ submission.command.id := by
          rintro rfl
          exact different (unmutated rfl known held)
        have kept := Server.applyCommand_other answered other
        refine ⟨⟨agree.readable, fun third => ?_, kept.trans agree.same,
          fun known held => agree.decided known (by rwa [kept] at held)⟩,
          fun known held => kept.trans held⟩
        rw [Server.recorded_remember]
        split
        · rename_i reused
          rw [reused, present]
          simp
        · exact agree.known third

theorem Twins.Agree.alike (agree : twins.Agree id) (unmutated : twins.Unmutated id taken)
    (step : Twins.Step twins taken after) : twins.Alike id taken := by
  constructor
  · rintro submission result simulated rfl rfl answered
    cases step with
    | submit host _ =>
      rcases forward_cases agree.readable submission.command submission.outcome with
        ⟨absent, table, forwarded, _⟩ | ⟨stored, present, forwarded⟩
      · have fresh := (agree.known submission.command.id).mpr absent
        rcases Server.applyCommand_cases answered with ⟨_, outcome, asked, decided, rfl, _⟩ |
          ⟨known, held, _⟩
        · rw [forwarded, host fresh outcome asked decided]
          simp only [Server.judge, fresh, Dedupe.decide]
        · rw [fresh] at held
          cases held
      · have held : twins.simulated.recorded submission.command.id = some stored :=
          agree.same.trans present
        have same := unmutated rfl stored held
        rcases Server.applyCommand_cases answered with ⟨fresh, _⟩ |
          ⟨known, held', ⟨_, rfl, _⟩ | ⟨different, _⟩⟩
        · rw [fresh] at held
          cases held
        · rw [held'] at held
          cases held
          rw [forwarded, if_pos same]
          simp [Server.judge, held', Dedupe.decide, same]
        · rw [held'] at held
          cases held
          exact absurd same different
  · intro after known step held
    obtain ⟨agree', kept⟩ := agree.step unmutated step
    have held' := kept known held
    rw [← agree'.same, held']
    exact ⟨rfl, rfl⟩

/-- A step that leaves what is recorded for an id as it was does not reuse it. -/
theorem Twins.Agree.unmutated (agree : twins.Agree id) (alike : twins.Alike id taken)
    (step : Twins.Step twins taken after) : twins.Unmutated id taken := by
  have recorded := fun known => alike.recorded after known step
  cases step with
  | move silent moved => trivial
  | @submit submission result simulated host answered =>
    rintro rfl known held
    have kept := (recorded known held).1
    by_contra different
    rcases Server.applyCommand_cases answered with ⟨fresh, _⟩ |
      ⟨known', held', ⟨same, _⟩ | ⟨_, rfl, rfl⟩⟩
    · rw [fresh] at held
      cases held
    · rw [held'] at held
      cases held
      exact different same
    · rw [Server.recorded_remember, if_pos rfl] at kept
      have refused : refusal submission.command = known.result := Option.some.inj kept
      apply agree.decided known held
      rw [← refused]
      rfl

omit [Hashing] in
theorem Twins.agree_empty (id : CommandId) : ({} : Twins).Agree id where
  readable := Dedupe.readable_empty
  known := fun _ => ⟨fun _ => rfl, fun _ => rfl⟩
  same := rfl
  decided := fun _ held => nomatch held

/-- The simulated server answers every submission of an id as the real one does, and both
keep the outcome they recorded, in exactly the runs that never reuse the id for another
body. -/
theorem dedupe_alike_iff (id : CommandId) (moves : List TwinMove) (twins : Twins) :
    Run (Guarded Twins.Step (Twins.Alike id)) {} moves twins ↔
      Run (Guarded Twins.Step (Twins.Unmutated id)) {} moves twins := by
  have both {start : Twins} (agree : start.Agree id) :
      Run (Guarded Twins.Step (Twins.Alike id)) start moves twins ↔
        Run (Guarded Twins.Step (Twins.Unmutated id)) start moves twins := by
    constructor
    · intro run
      induction run with
      | done => exact .done
      | next first _ ih =>
        obtain ⟨alike, step⟩ := first
        have unmutated := agree.unmutated alike step
        exact .next ⟨unmutated, step⟩ (ih (agree.step unmutated step).1)
    · intro run
      induction run with
      | done => exact .done
      | next first _ ih =>
        obtain ⟨unmutated, step⟩ := first
        exact .next ⟨agree.alike unmutated step, step⟩ (ih (agree.step unmutated step).1)
  exact both (Twins.agree_empty id)

end Twins

end CredSync.Sim

namespace CredSync.Sample

open Sim Transition

attribute [local instance] bodyHashes

/-- A command of the one id, on a roll that applies it as the first change. -/
def submitted (payload : Payload) : Submission where
  command := submission titleNote payload
  roll := 0
  outcome := .applied 1

/-- The command is registered and applied, then its id comes with another body. -/
def reused : List TwinMove :=
  [.move (.registerCommand titleNote.bytes note scope), .submit (submitted body),
    .submit (submitted otherBody)]

/-- The first body sent again is refused by the simulated server, where the real one
replays what it recorded. -/
theorem reused_diverges : ∃ twins, Run Twins.Step {} reused twins ∧
    (twins.simulated.applyCommand (submission titleNote body) 0).map (·.1) =
      some (refusal (submission titleNote body)) ∧
    (forward twins.table (submission titleNote body) (.ok (submitted body).outcome)).1 =
      .ok (.replayed published) := by
  have apart : (payloadChecksum body).bytes ≠ (payloadChecksum otherBody).bytes := by decide +kernel
  let registered : Server := ({} : Server).registerCommand titleNote.bytes note scope
  obtain ⟨asked, decided⟩ : ∃ asked, registered.hostDecision (submission titleNote body) 0 =
      some ((submitted body).outcome, asked) := ⟨_, rfl⟩
  -- the simulated server: applied, then the refusal over it
  let applied := asked.remember (submission titleNote body) published
  have first : registered.applyCommand (submission titleNote body) 0 = some (published, applied) := by
    have fresh : registered.recorded (submission titleNote body).id = none := by rfl
    simp only [Server.applyCommand, fresh, Dedupe.decide, decided, Option.map_some]
    rfl
  have held : applied.recorded (submission titleNote body).id =
      some ⟨(payloadChecksum body).bytes, published⟩ :=
    (Server.recorded_remember ..).trans (if_pos rfl)
  let overwritten := applied.remember (submission titleNote otherBody)
    (refusal (submission titleNote otherBody))
  have second : applied.applyCommand (submission titleNote otherBody) 0 =
      some (refusal (submission titleNote otherBody), overwritten) :=
    Server.applyCommand_reused held apart
  have held' : overwritten.recorded (submission titleNote body).id =
      some ⟨(payloadChecksum otherBody).bytes, refusal (submission titleNote otherBody)⟩ :=
    (Server.recorded_remember ..).trans (if_pos rfl)
  have third : overwritten.applyCommand (submission titleNote body) 0 =
      some (refusal (submission titleNote body), _) :=
    Server.applyCommand_reused held' apart.symm
  refine ⟨_, .next (.move rfl rfl) (.next (.submit (fun _ outcome _ decided' => ?_) first)
    (.next (.submit (fun fresh => ?_) second) .done)), ?_, ?_⟩
  · have same := decided.symm.trans decided'
    cases same
    rfl
  · have impossible := held.symm.trans fresh
    cases impossible
  · exact congrArg (Option.map (·.1)) third
  · rcases forward_cases Dedupe.readable_empty (submission titleNote body) (submitted body).outcome
      with ⟨_, table, stored, readable, recorded⟩ | ⟨known, present, _⟩
    · have told : Dedupe.recorded table (submission titleNote body).id =
          some ⟨(payloadChecksum body).bytes, published⟩ := (recorded _).trans (if_pos rfl)
      have again (payload : Payload) : forward table (submission titleNote payload)
          (.ok (submitted payload).outcome) = (.ok (if (payloadChecksum body).bytes =
            (payloadChecksum payload).bytes then .replayed published
            else .mutated (refusal (submission titleNote payload))), table) := by
        rcases forward_cases readable (submission titleNote payload) (submitted payload).outcome with
          ⟨absent, _⟩ | ⟨known, present, forwarded⟩
        · have impossible := told.symm.trans absent
          cases impossible
        · cases told.symm.trans present
          exact forwarded
      change (forward (forward (forward ∅ (submission titleNote body)
        (.ok (submitted body).outcome)).2 (submission titleNote otherBody)
        (.ok (submitted otherBody).outcome)).2 (submission titleNote body)
        (.ok (submitted body).outcome)).1 = _
      rw [stored, again otherBody, again body, if_pos rfl]
    · cases present

end CredSync.Sample
