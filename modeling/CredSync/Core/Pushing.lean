import CredSync.Core.Dispatch
import CredSync.Library.Packing
import CredSync.Protocol.Encoding

/-! A push against the plain algorithm: encode the commands chosen so far with the next
one, and stop at the first that makes them exceed a limit. The spliced buffer is that
encoding, at every step. -/

namespace CredSync

open Packing

/-! ### The buffer -/

/-- The loop of `build_push`, with each measurement it makes. -/
def fillPushMeasured (registry : Registry) (migrations : Migrations)
    (compressedLen : Bytes → Nat) (budgetBytes : Nat) :
    List OutboxEntry → PushFill → PushFill × List (Measurement Command)
  | [], fill => (fill, [])
  | entry :: rest, fill =>
    if Limits.commandsMaxCount ≤ fill.chosen.length then (fill, [])
    else match migratedCommand registry migrations entry with
      | .error e =>
        fillPushMeasured registry migrations compressedLen budgetBytes rest
          { fill with held := fill.held ++ [(entry.id, entry.schemaVersion, toString e)] }
      | .ok migrated =>
        let command := migrated.getD entry.command
        let buf := fill.splice (Canonical.toVec command)
        let tooManyBytes := Limits.commandsMaxTotalBytes < buf.length
        let overBudget := budgetBytes < compressedLen buf
        if (tooManyBytes ∨ overBudget) ∧ fill.chosen ≠ [] then
          ({ fill with buf := buf.take (fill.buf.length - 1) ++ [93] },
            [⟨fill.chosen, command, buf⟩])
        else
          let (final, later) := fillPushMeasured registry migrations compressedLen budgetBytes rest
            { fill with chosen := fill.chosen ++ [command], buf := buf }
          (final, ⟨fill.chosen, command, buf⟩ :: later)

variable {registry : Registry} {migrations : Migrations} {compressedLen : Bytes → Nat}
  {budgetBytes : Nat}

theorem fillPushMeasured_fst (entries : List OutboxEntry) (fill : PushFill) :
    (fillPushMeasured registry migrations compressedLen budgetBytes entries fill).1 =
      fillPush registry migrations compressedLen budgetBytes entries fill := by
  induction entries generalizing fill with
  | nil => rfl
  | cons entry rest ih =>
    unfold fillPushMeasured fillPush
    split
    · rfl
    · cases migratedCommand registry migrations entry with
      | error e => exact ih _
      | ok migrated =>
        simp only
        split
        · rfl
        · exact ih _

/-- A buffer that holds the encoding of its commands holds it with one more. -/
theorem PushFill.splice_eq {fill : PushFill} (encoded : fill.buf = Canonical.toVec fill.chosen)
    (command : Command) :
    fill.splice (Canonical.toVec command) = Canonical.toVec (fill.chosen ++ [command]) := by
  rw [PushFill.splice, encoded, Canonical.toVec_concat]

theorem fillPushMeasured_exact (entries : List OutboxEntry) (fill : PushFill)
    (encoded : fill.buf = Canonical.toVec fill.chosen) :
    ∀ measured ∈ (fillPushMeasured registry migrations compressedLen budgetBytes entries fill).2,
      measured.Exact := by
  induction entries generalizing fill with
  | nil => exact List.forall_mem_nil _
  | cons entry rest ih =>
    unfold fillPushMeasured
    split
    · exact List.forall_mem_nil _
    · cases migratedCommand registry migrations entry with
      | error e => exact ih _ encoded
      | ok migrated =>
        have exact' := fill.splice_eq encoded (migrated.getD entry.command)
        simp only
        split
        · exact List.forall_mem_singleton.mpr exact'
        · intro measured member
          rcases List.mem_cons.mp member with rfl | later
          · exact exact'
          · exact ih _ exact' measured later

theorem PushFill.holding_buf (commands : List Command) :
    (PushFill.holding commands).buf = Canonical.toVec commands := by
  induction commands using List.reverseRecOn with
  | nil => rfl
  | append_singleton commands command ih =>
    rw [PushFill.holding_concat]
    simp only
    rw [PushFill.splice, PushFill.holding_chosen, ih, Canonical.toVec_concat]

/-! ### What is taken -/

/-- Whether some commands together exceed a limit of a push. -/
def PushExceeds (compressedLen : Bytes → Nat) (budgetBytes : Nat) (commands : List Command) :
    Prop :=
  Limits.commandsMaxCount < commands.length ∨
    Limits.commandsMaxTotalBytes < (Canonical.toVec commands).length ∨
    budgetBytes < compressedLen (Canonical.toVec commands)

instance : DecidablePred (PushExceeds compressedLen budgetBytes) :=
  fun _ => inferInstanceAs (Decidable (_ ∨ _ ∨ _))

theorem roomFor_iff {chosen : List Command} {command : Command} :
    RoomFor compressedLen budgetBytes chosen command ↔
      ¬ (chosen ≠ [] ∧ PushExceeds compressedLen budgetBytes (chosen ++ [command])) := by
  have spliced : (PushFill.holding chosen).splice (Canonical.toVec command) =
      Canonical.toVec (chosen ++ [command]) := by
    rw [PushFill.splice_eq]
    · rw [PushFill.holding_chosen]
    · rw [PushFill.holding_buf, PushFill.holding_chosen]
  have counted : chosen.length < Limits.commandsMaxCount ↔
      ¬ Limits.commandsMaxCount < (chosen ++ [command]).length := by
    rw [List.length_append, List.length_singleton]
    omega
  unfold RoomFor PushExceeds
  simp only [spliced, counted]
  rw [not_and_or, not_not, not_or, not_or, not_lt, not_lt, not_lt]
  constructor
  · rintro ⟨count, first | fits⟩
    · exact .inl first
    · exact .inr ⟨count, fits⟩
  · rintro (first | ⟨count, fits⟩)
    · subst first
      refine ⟨?_, .inl rfl⟩
      exact (by decide : 1 ≤ Limits.commandsMaxCount)
    · exact ⟨count, .inr fits⟩

/-- Carrying what fits is greedy packing. -/
theorem carry_pack (chosen commands : List Command) :
    chosen ++ carry compressedLen budgetBytes chosen commands =
      pack (PushExceeds compressedLen budgetBytes) chosen commands := by
  induction commands generalizing chosen with
  | nil => exact List.append_nil chosen
  | cons command rest ih =>
    unfold carry pack
    simp only [roomFor_iff]
    split
    · rw [← ih, List.append_assoc]
      rfl
    · rename_i stop
      rw [if_pos (not_not.mp stop), List.append_nil]

/-- What a push says of a command that stays behind. -/
def heldReport (registry : Registry) (migrations : Migrations) (entry : OutboxEntry) :
    Option (CommandId × SchemaVersion × String) :=
  match migratedCommand registry migrations entry with
  | .ok _ => none
  | .error e => some (entry.id, entry.schemaVersion, toString e)

/-- Where the loop stops: behind as many commands as a push may have, or ahead of one
that makes them exceed a limit. -/
def StopsAt (registry : Registry) (migrations : Migrations) (compressedLen : Bytes → Nat)
    (budgetBytes : Nat) (chosen : List Command) (entry : OutboxEntry) : Prop :=
  chosen.length = Limits.commandsMaxCount ∨
    ∃ command, outgoing registry migrations entry = some command ∧ chosen ≠ [] ∧
      PushExceeds compressedLen budgetBytes (chosen ++ [command])

/-- The loop meets a first part of the queue: it takes what can be sent of it, and
reports the rest. -/
theorem fillPush_meets (entries : List OutboxEntry) (fill : PushFill)
    (encoded : fill.buf = Canonical.toVec fill.chosen)
    (short : fill.chosen.length ≤ Limits.commandsMaxCount) :
    let final := fillPush registry migrations compressedLen budgetBytes entries fill
    ∃ met unmet, entries = met ++ unmet ∧
      final.chosen = fill.chosen ++ met.filterMap (outgoing registry migrations) ∧
      final.held = fill.held ++ met.filterMap (heldReport registry migrations) ∧
      ∀ entry ∈ unmet.head?,
        StopsAt registry migrations compressedLen budgetBytes final.chosen entry := by
  induction entries generalizing fill with
  | nil =>
    refine ⟨[], [], rfl, (List.append_nil _).symm, (List.append_nil _).symm, ?_⟩
    intro entry impossible
    cases impossible
  | cons entry rest ih =>
    simp only
    unfold fillPush
    split
    · rename_i full
      refine ⟨[], entry :: rest, rfl, (List.append_nil _).symm, (List.append_nil _).symm, ?_⟩
      intro _ _
      exact .inl (Nat.le_antisymm short full)
    · rename_i room
      cases migrated : migratedCommand registry migrations entry with
      | error e =>
        obtain ⟨met, unmet, split, chosen, held, stops⟩ := ih
          { fill with held := fill.held ++ [(entry.id, entry.schemaVersion, toString e)] }
          encoded short
        have stays : outgoing registry migrations entry = none := by rw [outgoing, migrated]
        have reported : heldReport registry migrations entry =
            some (entry.id, entry.schemaVersion, toString e) := by rw [heldReport, migrated]
        refine ⟨entry :: met, unmet, by rw [split]; rfl, ?_, ?_, stops⟩
        · rw [List.filterMap_cons, stays]
          exact chosen
        · rw [List.filterMap_cons, reported]
          simp only at held ⊢
          rw [held, List.append_assoc]
          rfl
      | ok result =>
        have goes : outgoing registry migrations entry = some (result.getD entry.command) := by
          rw [outgoing, migrated]
        have silent : heldReport registry migrations entry = none := by rw [heldReport, migrated]
        have spliced := fill.splice_eq encoded (result.getD entry.command)
        simp only
        split
        · rename_i stop
          refine ⟨[], entry :: rest, rfl, (List.append_nil _).symm, (List.append_nil _).symm, ?_⟩
          intro other same
          cases same
          rw [spliced] at stop
          exact .inr ⟨_, goes, stop.2, .inr stop.1⟩
        · obtain ⟨met, unmet, split, chosen, held, stops⟩ := ih
            { fill with
              chosen := fill.chosen ++ [result.getD entry.command]
              buf := fill.splice (Canonical.toVec (result.getD entry.command)) } spliced (by
              rw [List.length_append, List.length_singleton]
              omega)
          refine ⟨entry :: met, unmet, by rw [split]; rfl, ?_, ?_, stops⟩
          · rw [List.filterMap_cons, goes]
            simp only at chosen ⊢
            rw [chosen, List.append_assoc]
            rfl
          · rw [List.filterMap_cons, silent]
            exact held

/-! ### The request -/

/-- What is taken passes the limits of a request. The first command is exempt from
them, and within them by itself. -/
theorem PushRequest.validate_packs {commands : List Command} {request : PushRequest}
    (packs : Packs (PushExceeds compressedLen budgetBytes) commands request.commands) :
    request.validate = .ok () := by
  have limits : request.commands.length ≤ Limits.commandsMaxCount ∧
      (Canonical.toVec request.commands).length ≤ Limits.commandsMaxTotalBytes := by
    rcases Nat.lt_or_ge 1 request.commands.length with more | few
    · have within := packs.within _ more (Nat.le_refl _)
      rw [← List.prefix_iff_eq_take.mp packs.begins, PushExceeds, not_or, not_or, not_lt,
        not_lt] at within
      exact ⟨within.1, within.2.1⟩
    · cases commands' : request.commands with
      | nil => decide
      | cons command rest =>
        have alone : rest = [] := by
          rw [commands', List.length_cons] at few
          exact List.eq_nil_of_length_eq_zero (by omega)
        subst alone
        exact ⟨(by decide : 1 ≤ Limits.commandsMaxCount), command.length_toVec⟩
  rw [PushRequest.validate, if_neg (Nat.not_lt.mpr limits.1), if_neg (Nat.not_lt.mpr limits.2)]

/-- A report of a command held back, as the host receives it. -/
def heldTelemetry (report : CommandId × SchemaVersion × String) : Telemetry :=
  .commandHeld report.1 report.2.1 report.2.2

theorem foldl_heldTelemetry (held : List (CommandId × SchemaVersion × String)) (engine : Engine) :
    held.foldl (fun engine (command, authoredUnder, reason) =>
      engine.emit (.commandHeld command authoredUnder reason)) engine =
        { engine with effects := engine.effects ++ held.map heldTelemetry } := by
  induction held generalizing engine with
  | nil => simp
  | cons one rest ih =>
    rw [List.foldl_cons, ih]
    simp only [Engine.emit, heldTelemetry, List.append_assoc, List.map_cons, List.cons_append,
      List.nil_append]

/-- A request built from a queue as the plain algorithm builds it, with the reports of
the commands it met and could not send. -/
structure PlainPush (registry : Registry) (migrations : Migrations)
    (compressedLen : Bytes → Nat) (budgetBytes : Nat) (queue : List OutboxEntry)
    (request : PushRequest) (reports : List Telemetry) : Prop where
  takes : Packs (PushExceeds compressedLen budgetBytes)
    (queue.filterMap (outgoing registry migrations)) request.commands
  meets : ∃ met unmet, queue = met ++ unmet ∧
    request.commands = met.filterMap (outgoing registry migrations) ∧
    reports = (met.filterMap (heldReport registry migrations)).map heldTelemetry ∧
    ∀ entry ∈ unmet.head?,
      StopsAt registry migrations compressedLen budgetBytes request.commands entry
  valid : request.validate = .ok ()

theorem fillPush_plain (protocol : ProtocolVersion) (queue : List OutboxEntry) :
    let fill := fillPush registry migrations compressedLen budgetBytes queue {}
    PlainPush registry migrations compressedLen budgetBytes queue ⟨protocol, fill.chosen⟩
      (fill.held.map heldTelemetry) := by
  intro fill
  have takes : Packs (PushExceeds compressedLen budgetBytes)
      (queue.filterMap (outgoing registry migrations)) fill.chosen := by
    have packed : Packs (PushExceeds compressedLen budgetBytes) _ _ :=
      pack_packs (queue.filterMap (outgoing registry migrations))
    rwa [← carry_pack, ← fillPush_carries queue {} rfl] at packed
  obtain ⟨met, unmet, split, chosen, held, stops⟩ :=
    @fillPush_meets registry migrations compressedLen budgetBytes queue {} rfl (Nat.zero_le _)
  refine ⟨takes, ⟨met, unmet, split, ?_, ?_, stops⟩, PushRequest.validate_packs takes⟩
  · exact chosen
  · exact congrArg (List.map heldTelemetry) held

/-- `build_push` is the plain algorithm. With the outbox reconciled and no upgrade
forced, the buffer measured at each step is the encoding of the commands chosen so far
and the next; no request is built exactly if nothing is queued; a request takes what can
be sent as far as it fits, and is valid; each command it met and could not send is
reported once; and the outbox stays. -/
theorem buildPush_plain (device fresh : Device) (faults : Faults) (compressedLen : Bytes → Nat)
    (protocol : ProtocolVersion) (budgetBytes : Nat)
    (current : device.engine.upgradeRequired = none)
    (reconciled : device.refreshOutboxIfSuspect faults = (.ok (), fresh)) :
    let pushed := device.buildPush faults compressedLen protocol budgetBytes
    let registry := fresh.engine.registry
    let migrations := fresh.engine.migrations
    let measured := fillPushMeasured registry migrations compressedLen budgetBytes
      fresh.engine.outbox {}
    (measured.1 = fillPush registry migrations compressedLen budgetBytes fresh.engine.outbox {} ∧
      ∀ step ∈ measured.2, step.Exact) ∧
    (fresh.engine.outbox = [] → pushed = (.ok none, fresh)) ∧
    (fresh.engine.outbox ≠ [] → ∃ request reports, pushed = (.ok (some request),
        { fresh with
          engine := { fresh.engine with effects := fresh.engine.effects ++ reports } }) ∧
      PlainPush registry migrations compressedLen budgetBytes fresh.engine.outbox request reports) ∧
    pushed.2.db = device.db ∧ pushed.2.engine.outbox = fresh.engine.outbox := by
  intro pushed registry migrations measured
  have still : fresh.db = device.db ∧
      fresh.engine.upgradeRequired = device.engine.upgradeRequired := by
    unfold Device.refreshOutboxIfSuspect at reconciled
    split at reconciled
    · split at reconciled
      · cases reconciled
      · cases reconciled
        exact ⟨rfl, rfl⟩
    · cases reconciled
      exact ⟨rfl, rfl⟩
  have proceeds : fresh.engine.upgradeRequired.isSome = false := by
    rw [still.2, current]
    rfl
  have idle : fresh.engine.outbox = [] → pushed = (.ok none, fresh) := by
    intro empty
    simp only [pushed, Device.buildPush, reconciled, proceeds, empty, Bool.false_eq_true, if_false,
      List.isEmpty_nil, if_true]
  have sends : fresh.engine.outbox ≠ [] → ∃ request reports, pushed = (.ok (some request),
        { fresh with
          engine := { fresh.engine with effects := fresh.engine.effects ++ reports } }) ∧
      PlainPush registry migrations compressedLen budgetBytes fresh.engine.outbox request
        reports := by
    intro present
    have queued : fresh.engine.outbox.isEmpty = false := by
      rwa [List.isEmpty_eq_false_iff]
    refine ⟨_, _, ?_, fillPush_plain protocol fresh.engine.outbox⟩
    simp only [pushed, Device.buildPush, reconciled, proceeds, queued, Bool.false_eq_true, if_false,
      foldl_heldTelemetry]
    rfl
  refine ⟨⟨fillPushMeasured_fst _ _, fillPushMeasured_exact _ _ rfl⟩, idle, sends, ?_⟩
  by_cases present : fresh.engine.outbox = []
  · rw [idle present]
    exact ⟨still.1, rfl⟩
  · obtain ⟨request, reports, built, _⟩ := sends present
    rw [built]
    exact ⟨still.1, rfl⟩

namespace Sample

/-- An app that cannot migrate its first command, and can send its second. -/
def upgradedApp : Device where
  engine := { outbox := [edit, laterEdit], registry := app nextSchema }
  db := { outbox := [edit, laterEdit] }

theorem upgradedApp_pushesPlainly : ∃ request reports,
    (upgradedApp.buildPush .none List.length 1 0).1 = .ok (some request) ∧
    PlainPush (app nextSchema) Migrations.new List.length 0 [edit, laterEdit] request reports := by
  obtain ⟨_, _, sends, _⟩ :=
    buildPush_plain upgradedApp upgradedApp .none List.length 1 0 rfl rfl
  obtain ⟨request, reports, built, plain⟩ := sends (List.cons_ne_nil _ _)
  exact ⟨request, reports, congrArg Prod.fst built, plain⟩

end Sample

/-! ### Checksums -/

/-- A command whose checksum is that of its payload. -/
def Command.Intact [Hashing] (command : Command) : Prop :=
  command.checksum = payloadChecksum command.payload

instance [Hashing] : DecidablePred Command.Intact := fun _ => inferInstanceAs (Decidable (_ = _))

theorem outgoing_checksum {entry : OutboxEntry} {command : Command}
    (goes : outgoing registry migrations entry = some command) :
    command.checksum = entry.command.checksum := by
  obtain ⟨payload, rfl⟩ := outgoing_eq goes
  rfl

/-- A command that a push has room for stands behind commands it has room for. -/
theorem mem_carry_iff {chosen commands : List Command} {command : Command} :
    command ∈ carry compressedLen budgetBytes chosen commands ↔
      ∃ before after, commands = before ++ command :: after ∧
        Fits compressedLen budgetBytes chosen (before ++ [command]) := by
  induction commands generalizing chosen with
  | nil =>
    constructor
    · intro impossible
      cases impossible
    · rintro ⟨before, after, split, _⟩
      simp at split
  | cons first rest ih =>
    unfold carry
    split
    · rename_i room
      rw [List.mem_cons, ih]
      constructor
      · rintro (rfl | ⟨before, after, rfl, fits⟩)
        · exact ⟨[], rest, rfl, room, trivial⟩
        · exact ⟨first :: before, after, rfl, room, fits⟩
      · rintro ⟨before, after, split, fits⟩
        cases before with
        | nil =>
          left
          exact (List.cons.inj split).1.symm
        | cons head before =>
          obtain ⟨rfl, same⟩ := List.cons.inj split
          right
          exact ⟨before, after, same, fits.2⟩
    · rename_i full
      constructor
      · intro impossible
        cases impossible
      · rintro ⟨before, after, split, fits⟩
        cases before with
        | nil =>
          obtain ⟨rfl, _⟩ := List.cons.inj split
          exact absurd fits.1 full
        | cons head before =>
          obtain ⟨rfl, _⟩ := List.cons.inj split
          exact absurd fits.1 full

section Checksums

variable [Hashing]

/-- No command that a push has room for is migrated to a payload of another checksum. -/
def ChecksumsKept (registry : Registry) (migrations : Migrations)
    (compressedLen : Bytes → Nat) (budgetBytes : Nat) (queue : List OutboxEntry) : Prop :=
  ∀ earlier entry later, queue = earlier ++ entry :: later →
    ∀ command, outgoing registry migrations entry = some command →
      Fits compressedLen budgetBytes []
        (earlier.filterMap (outgoing registry migrations) ++ [command]) →
      payloadChecksum command.payload = payloadChecksum entry.command.payload

theorem checksumsKept_iff {queue : List OutboxEntry}
    (intact : ∀ entry ∈ queue, entry.command.Intact) :
    (∀ command ∈ carry compressedLen budgetBytes []
        (queue.filterMap (outgoing registry migrations)), command.Intact) ↔
      ChecksumsKept registry migrations compressedLen budgetBytes queue := by
  constructor
  · intro sent earlier entry later split command goes fits
    have member : entry ∈ queue := by simp [split]
    have carried : command ∈ carry compressedLen budgetBytes []
        (queue.filterMap (outgoing registry migrations)) := by
      apply mem_carry_iff.mpr
      refine ⟨_, later.filterMap (outgoing registry migrations), ?_, fits⟩
      rw [split, List.filterMap_append, List.filterMap_cons, goes]
    rw [← sent command carried, outgoing_checksum goes, intact entry member]
  · intro kept command carried
    obtain ⟨before, after, split, fits⟩ := mem_carry_iff.mp carried
    obtain ⟨earlier, others, rfl, rfl, tail⟩ := List.filterMap_eq_append_iff.mp split
    obtain ⟨held, entry, later, rfl, passed, goes, _⟩ := List.filterMap_eq_cons_iff.mp tail
    have nothing : held.filterMap (outgoing registry migrations) = [] :=
      List.filterMap_eq_nil_iff.mpr passed
    have same := kept (earlier ++ held) entry later (by simp) command goes (by
      rw [List.filterMap_append, nothing, List.append_nil]
      exact fits)
    rw [Command.Intact, same, outgoing_checksum goes]
    exact intact entry (by simp)

/-- An event that queues nothing but an intact command. -/
def ClientEvent.Intact : ClientEvent → Prop
  | .call _ made => ∀ entry ∈ made.queues, entry.command.Intact
  | .restart .. => True

/-- Over any run of calls and upgrades that queues intact commands, the commands of a
request are intact exactly if no migration on their way changed their payload's checksum. -/
theorem pushes_intact (start device : Device) (events : List ClientEvent) (queues : start.Queues)
    (intact : ∀ entry ∈ start.db.outbox, entry.command.Intact)
    (run : Transition.Run (Transition.Guarded Device.Reacts fun _ event => event.Intact)
      start events device)
    (faults : Faults) (compressedLen : Bytes → Nat) (protocol : ProtocolVersion)
    (budgetBytes : Nat) (request : PushRequest)
    (pushed : (device.buildPush faults compressedLen protocol budgetBytes).1 = .ok (some request)) :
    (∀ command ∈ request.commands, command.Intact) ↔
      ChecksumsKept device.engine.registry device.engine.migrations compressedLen budgetBytes
        device.db.outbox := by
  have kept : ∀ (before : Device) (event : ClientEvent) (after : Device),
      (before.Queues ∧ ∀ entry ∈ before.db.outbox, entry.command.Intact) →
      Transition.Guarded Device.Reacts (fun _ event => event.Intact) before event after →
      after.Queues ∧ ∀ entry ∈ after.db.outbox, entry.command.Intact := by
    rintro before event after ⟨queues, intact⟩ ⟨sound, rfl⟩
    cases event with
    | restart registry migrations scopes =>
      exact ⟨(Device.react_moves queues (.restart registry migrations scopes)).2, intact⟩
    | call faults made =>
      obtain ⟨moves, still⟩ := Device.call_moves queues faults made
      refine ⟨still, ?_⟩
      intro entry member
      rcases moves.outbox entry member with earlier | queued
      · exact intact entry earlier
      · exact sound entry queued
  obtain ⟨queued, stored⟩ := run.invariant kept ⟨queues, intact⟩
  obtain ⟨-, db, reread⟩ := device.refreshOutboxIfSuspect_spec faults queued
  have same := device.refreshOutboxIfSuspect_same faults
  unfold Device.buildPush at pushed
  generalize device.refreshOutboxIfSuspect faults = outcome at db reread same pushed
  obtain ⟨_ | _, fresh⟩ := outcome
  · cases pushed
  · simp only at db same pushed
    split at pushed
    · cases pushed
    · split at pushed
      · cases pushed
      · cases pushed
        have reconciled : fresh.engine.outbox = device.db.outbox := by rw [reread fresh rfl, db]
        rw [reconciled, same.registry, same.migrations, fillPush_carries _ _ rfl, List.nil_append]
        exact checksumsKept_iff stored

end Checksums

namespace Sample

def tagged : Payload := ⟨.object [("tags", .array [])], by decide⟩

/-- The hashes of these two payloads. -/
abbrev payloadHashes : Hashing := .ofTable []
  [(Canonical.toVec body, bodyHash),
    (Canonical.toVec tagged, #v[0xa1, 0x93, 0xea, 0xd0, 0xb6, 0xcf, 0x32, 0x4c, 0x5d, 0x88, 0xe2,
      0xdb, 0x25, 0xbb, 0xe1, 0xa1, 0x5f, 0x54, 0x1f, 0x58, 0x80, 0x5b, 0xbd, 0x55, 0x36, 0xc5, 0x7f,
      0x09, 0x6b, 0xe0, 0x0e, 0xe1])]

attribute [local instance] payloadHashes

/-- The edit with the checksum of its payload. -/
def stamped : OutboxEntry where
  command := { edit.command with checksum := payloadChecksum body }
  schemaVersion := schema

/-- A migration that gives a note its tags. -/
def tagging : Migrations := Migrations.new.register note schema fun _ => .ok tagged.value

/-- A migration that leaves a note as it is. -/
def keeping : Migrations := Migrations.new.register note schema .ok

/-- The app is upgraded between the edit and its push, with some migrations. -/
def editThenUpgrade (migrations : Migrations) : List ClientEvent :=
  [.call .none (.enqueue stamped), .restart (app nextSchema) migrations [scope]]

def upgradedPush (migrations : Migrations) : Device :=
  .restart (app nextSchema) migrations [scope] { outbox := [stamped], enqueued := {stamped.id} }

theorem editThenUpgrade_runs (migrations : Migrations) :
    Transition.Run (Transition.Guarded Device.Reacts fun _ event => event.Intact)
      (Device.restart (app schema) Migrations.new [scope] {}) (editThenUpgrade migrations)
      (upgradedPush migrations) := by
  apply Transition.Run.next
  · refine ⟨?_, rfl⟩
    intro entry queued
    cases queued
    rfl
  · apply Transition.Run.next
    · exact ⟨trivial, rfl⟩
    · exact .done

/-- The commands that the first push after the upgrade sends. -/
def firstPush (migrations : Migrations) : Option (List Command) :=
  ((upgradedPush migrations).buildPush .none List.length 1 4096).1.toOption.join.map
    PushRequest.commands

theorem firstPush_request {migrations : Migrations} {test : List Command → Bool}
    (found : (firstPush migrations).any test = true) : ∃ request,
      ((upgradedPush migrations).buildPush .none List.length 1 4096).1 = .ok (some request) ∧
      test request.commands = true := by
  obtain ⟨commands, sent, passes⟩ := (Option.any_eq_true ..).mp found
  obtain ⟨request, joined, rfl⟩ := Option.map_eq_some_iff.mp sent
  have answered := Option.join_eq_some_iff.mp joined
  refine ⟨request, ?_, passes⟩
  cases built : ((upgradedPush migrations).buildPush .none List.length 1 4096).1 with
  | error e =>
    rw [built] at answered
    cases answered
  | ok answer =>
    rw [built] at answered
    exact congrArg Except.ok (Option.some.inj answered)

/-- A migration that keeps the payload keeps the checksum true. -/
theorem keeping_intact : ∃ request,
    ((upgradedPush keeping).buildPush .none List.length 1 4096).1 = .ok (some request) ∧
    (∀ command ∈ request.commands, command.Intact) ∧
    ChecksumsKept (app nextSchema) keeping List.length 4096 [stamped] := by
  have found : (firstPush keeping).any (fun commands =>
      decide (∀ command ∈ commands, command.Intact)) = true := by
    decide +kernel
  obtain ⟨request, built, sound⟩ := firstPush_request found
  have intact : ∀ command ∈ request.commands, command.Intact := of_decide_eq_true sound
  have start : (Device.restart (app schema) Migrations.new [scope] {}).Queues := fun _ => rfl
  refine ⟨request, built, intact, ?_⟩
  exact (pushes_intact _ _ _ start (List.forall_mem_nil _) (editThenUpgrade_runs keeping) .none
    List.length 1 4096 request built).mp intact

/-- The edit is intact when it is queued, and goes out with a payload that is not the one
its checksum is of. -/
theorem tagging_stale : ∃ request,
    Transition.Run (Transition.Guarded Device.Reacts fun _ event => event.Intact)
      (Device.restart (app schema) Migrations.new [scope] {}) (editThenUpgrade tagging)
      (upgradedPush tagging) ∧
    ((upgradedPush tagging).buildPush .none List.length 1 4096).1 = .ok (some request) ∧
    ∃ command ∈ request.commands, ¬ command.Intact := by
  have found : (firstPush tagging).any (fun commands =>
      decide (∃ command ∈ commands, ¬ command.Intact)) = true := by
    decide +kernel
  obtain ⟨request, built, stale⟩ := firstPush_request found
  exact ⟨request, editThenUpgrade_runs tagging, built, of_decide_eq_true stale⟩

end Sample

end CredSync
