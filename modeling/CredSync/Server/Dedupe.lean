import CredSync.Library.FiniteMap
import CredSync.Protocol.Integrity
import CredSync.Server.Pull

/-! Command dedupe and forwarding. A command id means one body, the first outcome
recorded for it is the one everyone is told, and a host that could not be asked has
decided nothing. -/

namespace CredSync

/-- One row of `sync_command_results` as read from the database. -/
structure ResultRow where
  payloadChecksum : Bytes
  status : String
  reason : Option String
  serverSeq : Option Int
  deriving DecidableEq

/-- `sync_command_results`, by its primary key. -/
abbrev ResultTable := Table CommandId ResultRow

/-- What the store holds for a command id. -/
structure Recorded where
  checksum : Bytes
  result : CommandResult
  deriving DecidableEq

inductive Decision where
  | fresh
  | replay (result : CommandResult)
  | mutated (recorded submitted : Bytes)
  deriving DecidableEq

/-- The column's text for a status. -/
def Status.text : Status → String
  | .applied => "applied"
  | .rejected => "rejected"
  | .superseded => "superseded"

namespace Dedupe

/-- The reason for a command whose id was reused with a different body. -/
def mutatedReason : Reason :=
  ⟨"This request could not be verified. Please try again.", by decide⟩

section Rule

variable [Hashing]

/-- The whole dedupe rule. A payload that passed validation can always be encoded. -/
def decide (command : Command) (recorded : Option Recorded) : Decision :=
  let submitted := (payloadChecksum command.payload).bytes
  match recorded with
  | none => .fresh
  | some recorded =>
    if recorded.checksum ≠ submitted then .mutated recorded.checksum submitted
    else .replay recorded.result

end Rule

def readStatus (status : String) : Except ServerError Status :=
  if status = "applied" then .ok .applied
  else if status = "rejected" then .ok .rejected
  else if status = "superseded" then .ok .superseded
  else .error (.corrupt s!"sync_command_results.status is '{status}'")

def readReason : Option String → Except ServerError (Option Reason)
  | none => .ok none
  | some text => (liftProtocol (Reason.new text)).map some

def readServerSeq : Option Int → Except ServerError (Option Seq)
  | none => .ok none
  | some seq =>
    if 0 ≤ seq then (liftProtocol (BoundedNum.new seq.toNat)).map some
    else .error (.corrupt s!"sync_command_results.server_seq {seq} is negative")

/-- Rebuilds a result from a stored row. -/
def readResult (id : CommandId) (row : ResultRow) : Except ServerError CommandResult :=
  match readStatus row.status with
  | .error e => .error e
  | .ok status =>
    match readReason row.reason with
    | .error e => .error e
    | .ok reason =>
      match readServerSeq row.serverSeq with
      | .error e => .error e
      | .ok serverSeq =>
        match liftProtocol (CommandResult.validate ⟨id, status, reason, serverSeq⟩) with
        | .error e => .error e
        | .ok () => .ok ⟨id, status, reason, serverSeq⟩

section Table

variable [Hashing]

/-- Whether a command is fresh, a replay, or a mutated reuse. -/
def classify (table : ResultTable) (command : Command) : Except ServerError Decision :=
  match table.lookup command.id with
  | none => .ok (decide command none)
  | some row => (readResult command.id row).map fun result =>
      decide command (some ⟨row.payloadChecksum, result⟩)

/-- The row `record` inserts. A `Seq` always fits a bigint. -/
def rowOf (command : Command) (result : CommandResult) : ResultRow where
  payloadChecksum := (payloadChecksum command.payload).bytes
  status := result.status.text
  reason := result.reason.map (·.text)
  serverSeq := result.serverSeq.map fun seq => seq.get

/-- Records an outcome, or returns the one already recorded. -/
def record (table : ResultTable) (command : Command) (result : CommandResult) :
    Except ServerError CommandResult × ResultTable :=
  match table.lookup command.id with
  | none => (.ok result, table.insert command.id (rowOf command result))
  | some _ =>
    -- ON CONFLICT DO NOTHING: the insert lost, and the winner's outcome counts
    match classify table command with
    | .error e => (.error e, table)
    | .ok (.replay existing) => (.ok existing, table)
    | .ok (.mutated recorded submitted) =>
      (.error (.corrupt <| s!"command {asText command.id.display} lost an insert race to a " ++
        s!"record with checksum {asText recorded}, but this submission's payload hashes to " ++
        s!"{asText submitted}"), table)
    | .ok .fresh =>
      (.error (.corrupt <| s!"command {asText command.id.display} lost an insert race and then " ++
        "found no record at all"), table)

end Table

end Dedupe

/-- What the host decided about a command. -/
inductive HostOutcome where
  | applied (serverSeq : Seq)
  | rejected (reason : Reason)
  | superseded
  deriving DecidableEq

/-- Why the host could not be asked or could not answer: no verdict in any case. -/
inductive HostError where
  | timeout
  | status (code : Nat)
  | unreachable (detail : String)
  | malformed (detail : String)
  deriving DecidableEq

/-- What forwarding one command produced. -/
inductive Forwarded where
  | decided (result : CommandResult)
  | replayed (result : CommandResult)
  | mutated (result : CommandResult)
  | unresolved (error : HostError)
  deriving DecidableEq

/-- The result to send back, when there is one. -/
def Forwarded.result : Forwarded → Option CommandResult
  | .decided result | .replayed result | .mutated result => some result
  | .unresolved _ => none

/-- The host's words as a result. -/
def HostOutcome.result (id : CommandId) : HostOutcome → CommandResult
  | .applied serverSeq => ⟨id, .applied, none, some serverSeq⟩
  | .rejected reason => ⟨id, .rejected, some reason, none⟩
  | .superseded => ⟨id, .superseded, none, none⟩

/-- What `forward` answers without asking the host: none if the command is fresh. -/
def forwardKnown (command : Command) : Decision → Option Forwarded
  | .replay existing => some (.replayed existing)
  | .mutated .. => some (.mutated ⟨command.id, .rejected, some Dedupe.mutatedReason, none⟩)
  | .fresh => none

/-- `forward` once the host has been asked. -/
def forwardFresh [Hashing] (table : ResultTable) (command : Command)
    (outcome : Except HostError HostOutcome) : Except ServerError Forwarded × ResultTable :=
  match outcome with
  | .error error => (.ok (.unresolved error), table)
  | .ok outcome =>
    match Dedupe.record table command (outcome.result command.id) with
    | (.error e, table) => (.error e, table)
    | (.ok recorded, table) => (.ok (.decided recorded), table)

/-- Forwards one command to the host, deduping first and recording the outcome after. -/
def forward [Hashing] (table : ResultTable) (command : Command)
    (outcome : Except HostError HostOutcome) : Except ServerError Forwarded × ResultTable :=
  match Dedupe.classify table command with
  | .error e => (.error e, table)
  | .ok decision =>
    match forwardKnown command decision with
    | some answer => (.ok answer, table)
    | none => forwardFresh table command outcome

/-! ### What is recorded -/

namespace Dedupe

/-- What a table says of a command id. -/
def recorded (table : ResultTable) (id : CommandId) : Option Recorded :=
  match table.lookup id with
  | none => none
  | some row =>
    match readResult id row with
    | .ok result => some ⟨row.payloadChecksum, result⟩
    | .error _ => none

/-- Every row can be read back. -/
def Readable (table : ResultTable) : Prop :=
  ∀ id row, table.lookup id = some row → ∃ result, readResult id row = .ok result

theorem readable_empty : Readable ∅ := by
  intro id row found
  rw [Finmap.lookup_empty] at found
  cases found

theorem recorded_none {table : ResultTable} {id : CommandId} (readable : Readable table)
    (absent : recorded table id = none) : table.lookup id = none := by
  unfold recorded at absent
  cases found : table.lookup id with
  | none => rfl
  | some row =>
    obtain ⟨result, read⟩ := readable id row found
    simp only [found, read] at absent
    cases absent

private theorem readReason_text (reason : Option Reason) :
    readReason (reason.map (·.text)) = .ok reason := by
  cases reason with
  | none => rfl
  | some reason => simp only [readReason, Option.map_some, reason.new_text, liftProtocol, Except.map]

private theorem readServerSeq_get (seq : Option Seq) :
    readServerSeq (seq.map fun seq => (seq.get : Int)) = .ok seq := by
  cases seq with
  | none => rfl
  | some seq =>
    have whole : (0 : Int) ≤ seq.get := Int.natCast_nonneg _
    simp only [readServerSeq, Option.map_some, if_pos whole, Int.toNat_natCast, BoundedNum.new_get,
      liftProtocol, Except.map]

section Table

variable [Hashing] {table : ResultTable} {command : Command}

/-- What is recorded reads back as it was. -/
theorem readResult_rowOf (command : Command) (valid : result.validate = .ok ()) :
    readResult result.id (rowOf command result) = .ok result := by
  have status : readStatus result.status.text = .ok result.status := by
    cases result.status <;> rfl
  unfold readResult rowOf
  simp only [status, readReason_text, readServerSeq_get]
  rw [valid]
  rfl

theorem classify_recorded (readable : Readable table) (command : Command) :
    classify table command = .ok (decide command (recorded table command.id)) := by
  unfold classify recorded
  cases found : table.lookup command.id with
  | none => rfl
  | some row =>
    obtain ⟨result, read⟩ := readable command.id row found
    simp only [read, Except.map]

/-- A record is made once, and whoever comes later is told it or nothing. -/
theorem record_cases (readable : Readable table) (command : Command) (result : CommandResult)
    (named : result.id = command.id) (valid : result.validate = .ok ()) :
    (recorded table command.id = none ∧ ∃ table', record table command result = (.ok result, table') ∧
      Readable table' ∧ ∀ id, recorded table' id =
        if id = command.id then some ⟨(payloadChecksum command.payload).bytes, result⟩
        else recorded table id) ∨
      ∃ known, recorded table command.id = some known ∧
        ((∃ e, record table command result = (.error e, table)) ∨
          (known.checksum = (payloadChecksum command.payload).bytes ∧
            record table command result = (.ok known.result, table))) := by
  cases held : recorded table command.id with
  | none =>
    left
    have absent := recorded_none readable held
    have back : readResult command.id (rowOf command result) = .ok result := by
      rw [← named]
      exact readResult_rowOf command valid
    refine ⟨rfl, table.insert command.id (rowOf command result), ?_, ?_, fun id => ?_⟩
    · unfold record
      rw [absent]
    · intro id row found
      rw [Table.lookup_insert_if] at found
      split at found
      · rename_i same
        cases found
        rw [same]
        exact ⟨result, back⟩
      · exact readable id row found
    · rw [recorded, Table.lookup_insert_if]
      by_cases same : id = command.id
      · rw [if_pos same, if_pos same, same]
        simp only [back]
        rfl
      · rw [if_neg same, if_neg same, recorded]
  | some known =>
    right
    refine ⟨known, rfl, ?_⟩
    have present : ∃ row, table.lookup command.id = some row := by
      cases found : table.lookup command.id with
      | some row => exact ⟨row, rfl⟩
      | none =>
        unfold recorded at held
        rw [found] at held
        cases held
    obtain ⟨row, found⟩ := present
    have classified := classify_recorded readable command
    rw [held] at classified
    unfold record
    rw [found, classified]
    simp only [decide]
    split
    · rename_i e refused
      cases refused
    · rename_i existing replayed
      split at replayed
      · cases replayed
      · rename_i same
        cases replayed
        exact .inr ⟨not_not.mp same, rfl⟩
    · exact .inl ⟨_, rfl⟩
    · exact .inl ⟨_, rfl⟩

/-- Whether two commands ask for the same thing under their id. -/
def SameMeaning (submitted recorded : Command) : Prop :=
  submitted.name = recorded.name ∧ submitted.scope = recorded.scope ∧
    submitted.payload = recorded.payload

/-- What a later submission under a recorded id is: its payload alone decides. -/
theorem classify_later (stored : table.lookup command.id = some (rowOf command result))
    (named : result.id = command.id) (valid : result.validate = .ok ())
    {submitted : Command} (same : submitted.id = command.id) :
    classify table submitted = .ok
      (if payloadChecksum submitted.payload = payloadChecksum command.payload then .replay result
        else .mutated (payloadChecksum command.payload).bytes
          (payloadChecksum submitted.payload).bytes) := by
  have back : readResult command.id (rowOf command result) = .ok result := by
    rw [← named]
    exact readResult_rowOf command valid
  unfold classify
  rw [same, stored]
  simp only [back]
  change Except.ok (decide submitted (some ⟨(payloadChecksum command.payload).bytes, result⟩)) = _
  unfold decide
  generalize payloadChecksum submitted.payload = later
  generalize payloadChecksum command.payload = earlier
  by_cases equal : later = earlier
  · simp [equal]
  · have bytes : earlier.bytes ≠ later.bytes := fun bytes => equal (HexString.ext bytes.symm)
    simp [equal, bytes]

/-- A submission under a recorded id is answered with the record exactly if it means what
was recorded, and refused otherwise, if and only if no other name or scope comes with the
recorded payload. -/
theorem replays_same_meaning_iff (table : ResultTable) (recorded submitted : Command)
    (result : CommandResult) (stored : table.lookup recorded.id = some (rowOf recorded result))
    (named : result.id = recorded.id) (valid : result.validate = .ok ())
    (same : submitted.id = recorded.id)
    (collides : payloadChecksum submitted.payload = payloadChecksum recorded.payload →
      submitted.payload = recorded.payload) :
    ((∀ known, classify table submitted = .ok (.replay known) → SameMeaning submitted recorded) ∧
      (¬ SameMeaning submitted recorded → ∃ checksum checksum',
        classify table submitted = .ok (.mutated checksum checksum'))) ↔
    (submitted.payload = recorded.payload →
      submitted.name = recorded.name ∧ submitted.scope = recorded.scope) := by
  rw [classify_later stored named valid same]
  by_cases payload : submitted.payload = recorded.payload
  · rw [payload, if_pos rfl]
    constructor
    · rintro ⟨replays, _⟩ _
      obtain ⟨name, scope, _⟩ := replays result rfl
      exact ⟨name, scope⟩
    · intro means
      obtain ⟨name, scope⟩ := means rfl
      exact ⟨fun _ _ => ⟨name, scope, payload⟩, fun other => absurd ⟨name, scope, payload⟩ other⟩
  · rw [if_neg fun checksums => payload (collides checksums)]
    exact ⟨fun _ equal => absurd equal payload, fun _ => ⟨nofun, fun _ => ⟨_, _, rfl⟩⟩⟩

end Table

end Dedupe

theorem HostOutcome.result_valid (outcome : HostOutcome) (id : CommandId) :
    (outcome.result id).id = id ∧ (outcome.result id).validate = .ok () := by
  cases outcome <;> exact ⟨rfl, rfl⟩

/-- The refusal of a command whose id was recorded with another body. -/
def refusal (command : Command) : CommandResult :=
  ⟨command.id, .rejected, some Dedupe.mutatedReason, none⟩

/-- Forwarding asks the host about an id once, and from then on goes by the record. -/
theorem forward_cases [Hashing] {table : ResultTable} (readable : Dedupe.Readable table)
    (command : Command) (outcome : HostOutcome) :
    (Dedupe.recorded table command.id = none ∧ ∃ table',
      forward table command (.ok outcome) = (.ok (.decided (outcome.result command.id)), table') ∧
        Dedupe.Readable table' ∧ ∀ id, Dedupe.recorded table' id =
          if id = command.id then
            some ⟨(payloadChecksum command.payload).bytes, outcome.result command.id⟩
          else Dedupe.recorded table id) ∨
      ∃ known, Dedupe.recorded table command.id = some known ∧
        forward table command (.ok outcome) =
          (.ok (if known.checksum = (payloadChecksum command.payload).bytes then
            .replayed known.result else .mutated (refusal command)), table) := by
  have classified := Dedupe.classify_recorded readable command
  obtain ⟨named, valid⟩ := outcome.result_valid command.id
  rcases Dedupe.record_cases readable command (outcome.result command.id) named valid with
    ⟨absent, table', stored, readable', recorded⟩ | ⟨known, held, _⟩
  · rw [absent] at classified
    refine .inl ⟨absent, table', ?_, readable', recorded⟩
    simp only [forward, classified, Dedupe.decide, forwardKnown, forwardFresh, stored]
  · rw [held] at classified
    refine .inr ⟨known, held, ?_⟩
    by_cases same : known.checksum = (payloadChecksum command.payload).bytes
    · simp [forward, classified, Dedupe.decide, forwardKnown, same]
    · simp [forward, classified, Dedupe.decide, forwardKnown, same, refusal]

namespace Sample

/-- Another body that may come under one command id. -/
def otherBody : Payload := ⟨.object [("t", .null)], by decide⟩

def titleNote : CommandName := ⟨ascii "title_note", by decide⟩
def archiveNote : CommandName := ⟨ascii "archive_note", by decide⟩

/-- A command of one id, with some name and body. -/
def submission (name : CommandName) (payload : Payload) : Command where
  id := firstCommand
  name := name
  scope := scope
  payload := payload
  clientTs := 0
  checksum := hexU128 0

/-- The hashes of the two bodies. -/
abbrev bodyHashes : Hashing := .ofTable []
  [(Canonical.toVec body, bodyHash),
    (Canonical.toVec otherBody, ⟨#[150, 186, 223, 63, 87, 59, 144, 52, 70, 227, 109, 52, 140, 222, 128, 76,
      227, 46, 16, 170, 186, 204, 39, 52, 83, 174, 89, 91, 32, 212, 121, 184], rfl⟩)]

attribute [local instance] bodyHashes

def published : CommandResult :=
  ⟨(submission titleNote body).id, .applied, none, some 1⟩

/-- The store once the first command was applied. -/
def publishedTable : ResultTable :=
  (Dedupe.record ∅ (submission titleNote body) published).2

/-- Another body under the id is refused. -/
theorem otherBody_refused : ∃ checksum checksum',
    Dedupe.classify publishedTable (submission titleNote otherBody) =
      .ok (.mutated checksum checksum') := by
  have apart : payloadChecksum otherBody ≠ payloadChecksum body := by decide +kernel
  have different : ¬ Dedupe.SameMeaning (submission titleNote otherBody)
      (submission titleNote body) := fun means =>
    apart (congrArg (fun payload : Payload => payloadChecksum payload) means.2.2)
  exact ((Dedupe.replays_same_meaning_iff publishedTable (submission titleNote body)
    (submission titleNote otherBody) published (by rfl) rfl (by decide) rfl
    fun collision => absurd collision apart).mpr fun _ => ⟨rfl, rfl⟩).2 different

/-- Another name with the recorded body is told that it was applied. -/
theorem otherName_replayed :
    (submission archiveNote body).name ≠ (submission titleNote body).name ∧
      Dedupe.classify publishedTable (submission archiveNote body) = .ok (.replay published) := by
  constructor
  · decide
  · have stored : publishedTable.lookup (submission titleNote body).id =
        some (Dedupe.rowOf (submission titleNote body) published) := by rfl
    have same : (submission archiveNote body).id = (submission titleNote body).id := rfl
    exact (Dedupe.classify_later stored rfl (by decide) same).trans (congrArg _ (if_pos rfl))

end Sample

end CredSync
