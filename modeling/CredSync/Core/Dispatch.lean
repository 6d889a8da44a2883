import CredSync.Core.OutboxLedger

/-! The order in which commands are pushed. A push takes queued commands in order as
far as they fit, and passes over those that this app cannot migrate; they keep their
place in the outbox, and the ones behind them do not wait. -/

namespace CredSync

/-- Whether a request takes the commands of a queue in their order, and passes over
none but those that were sent before. Behind the last one taken nothing is asked. -/
inductive TakesInOrder (sent : List CommandId) : List OutboxEntry → List CommandId → Prop where
  | done : TakesInOrder sent queue []
  | takes (entry : OutboxEntry) (rest : TakesInOrder sent queue request) :
      TakesInOrder sent (entry :: queue) (entry.id :: request)
  | passes (entry : OutboxEntry) (before : entry.id ∈ sent)
      (rest : TakesInOrder sent queue request) : TakesInOrder sent (entry :: queue) request

/-- In a queue that holds no command twice, every command ahead of one that is taken
goes ahead of it in the request, or went before. -/
theorem TakesInOrder.ahead (takes : TakesInOrder sent queue request)
    (queued : queue = earlier ++ entry :: later) (once : (queue.map OutboxEntry.id).Nodup)
    (taken : request = front ++ entry.id :: back) :
    ∀ other ∈ earlier, other.id ∈ front ∨ other.id ∈ sent := by
  induction takes generalizing earlier front with
  | done => cases front <;> cases taken
  | @takes queue request first rest ih =>
    cases earlier with
    | nil => exact fun _ member => nomatch member
    | cons head earlier =>
      obtain ⟨rfl, rfl⟩ := List.cons.inj queued
      obtain ⟨apart, once⟩ := List.nodup_cons.mp once
      cases front with
      | nil =>
        obtain ⟨same, _⟩ := List.cons.inj taken
        rw [same] at apart
        exact absurd (List.mem_map_of_mem (by simp)) apart
      | cons id front =>
        obtain ⟨rfl, remaining⟩ := List.cons.inj taken
        intro other member
        rcases List.mem_cons.mp member with rfl | member
        · exact .inl List.mem_cons_self
        · exact (ih rfl once remaining other member).imp_left (List.mem_cons_of_mem _)
  | @passes queue request first before rest ih =>
    cases earlier with
    | nil => exact fun _ member => nomatch member
    | cons head earlier =>
      obtain ⟨rfl, rfl⟩ := List.cons.inj queued
      intro other member
      rcases List.mem_cons.mp member with rfl | member
      · exact .inr before
      · exact ih rfl (List.nodup_cons.mp once).2 taken other member

/-! ### What fits into a request -/

/-- A request filled with commands, whatever their size. -/
def PushFill.holding (commands : List Command) : PushFill :=
  commands.foldl (fun fill command => { fill with
    chosen := fill.chosen ++ [command]
    buf := fill.splice (Canonical.toVec command) }) {}

section Room

variable (compressedLen : Bytes → Nat) (budgetBytes : Nat)

/-- Whether a request that holds some commands has room for one more. The first always
goes. -/
def RoomFor (chosen : List Command) (command : Command) : Prop :=
  let buf := (PushFill.holding chosen).splice (Canonical.toVec command)
  chosen.length < Limits.commandsMaxCount ∧
    (chosen = [] ∨ buf.length ≤ Limits.commandsMaxTotalBytes ∧ compressedLen buf ≤ budgetBytes)

instance (chosen : List Command) : DecidablePred (RoomFor compressedLen budgetBytes chosen) :=
  fun _ => inferInstanceAs (Decidable (_ ∧ (_ ∨ _ ∧ _)))

/-- Whether a request has room for commands one after the other. -/
def Fits : List Command → List Command → Prop
  | _, [] => True
  | chosen, command :: rest =>
      RoomFor compressedLen budgetBytes chosen command ∧ Fits (chosen ++ [command]) rest

/-- The commands that a request takes: as many as fit. -/
def carry : List Command → List Command → List Command
  | _, [] => []
  | chosen, command :: rest =>
      if RoomFor compressedLen budgetBytes chosen command then
        command :: carry (chosen ++ [command]) rest
      else []

end Room

variable {compressedLen : Bytes → Nat} {budgetBytes : Nat}

theorem Fits.concat (fits : Fits compressedLen budgetBytes chosen commands)
    (room : RoomFor compressedLen budgetBytes (chosen ++ commands) command) :
    Fits compressedLen budgetBytes chosen (commands ++ [command]) := by
  induction commands generalizing chosen with
  | nil =>
    rw [List.append_nil] at room
    exact ⟨room, trivial⟩
  | cons first rest ih =>
    refine ⟨fits.1, ih fits.2 ?_⟩
    rw [List.append_assoc]
    exact room

theorem PushFill.holding_concat (commands : List Command) (command : Command) :
    PushFill.holding (commands ++ [command]) =
      { PushFill.holding commands with
        chosen := (PushFill.holding commands).chosen ++ [command]
        buf := (PushFill.holding commands).splice (Canonical.toVec command) } :=
  List.foldl_concat ..

theorem PushFill.holding_chosen (commands : List Command) :
    (PushFill.holding commands).chosen = commands := by
  induction commands using List.reverseRecOn with
  | nil => rfl
  | append_singleton commands command ih => rw [holding_concat, ih]

/-- A queued command as this app pushes it; none if it cannot be migrated. -/
def outgoing (registry : Registry) (migrations : Migrations) (entry : OutboxEntry) :
    Option Command :=
  match migratedCommand registry migrations entry with
  | .ok migrated => some (migrated.getD entry.command)
  | .error _ => none

variable {registry : Registry} {migrations : Migrations}

/-- Migrating a command changes nothing but its payload. -/
theorem outgoing_eq (goes : outgoing registry migrations entry = some command) :
    ∃ payload, command = { entry.command with payload := payload } := by
  unfold outgoing at goes
  cases migrated : migratedCommand registry migrations entry with
  | error e =>
    rw [migrated] at goes
    cases goes
  | ok result =>
    rw [migrated] at goes
    cases goes
    cases result with
    | none => exact ⟨entry.command.payload, rfl⟩
    | some renewed =>
      unfold migratedCommand at migrated
      split at migrated
      · cases migrated
      · split at migrated
        · cases migrated
        · split at migrated
          · cases migrated
          · split at migrated
            · cases migrated
            · split at migrated
              · cases migrated
              · cases migrated
                exact ⟨_, rfl⟩

theorem outgoing_id (goes : outgoing registry migrations entry = some command) :
    command.id = entry.id := by
  obtain ⟨payload, rfl⟩ := outgoing_eq goes
  rfl

theorem carry_full (full : Limits.commandsMaxCount ≤ chosen.length) (commands : List Command) :
    carry compressedLen budgetBytes chosen commands = [] := by
  cases commands with
  | nil => rfl
  | cons command rest => exact if_neg fun room => Nat.not_lt.mpr full room.1

/-- A push carries the commands that can be migrated, as many as fit. -/
theorem fillPush_carries (entries : List OutboxEntry) (fill : PushFill)
    (whole : fill.buf = (PushFill.holding fill.chosen).buf) :
    (fillPush registry migrations compressedLen budgetBytes entries fill).chosen =
      fill.chosen ++ carry compressedLen budgetBytes fill.chosen
        (entries.filterMap (outgoing registry migrations)) := by
  induction entries generalizing fill with
  | nil => exact (List.append_nil _).symm
  | cons entry rest ih =>
    unfold fillPush
    split
    · rename_i full
      rw [carry_full full, List.append_nil]
    · rename_i short
      cases migrated : migratedCommand registry migrations entry with
      | error e =>
        have stays : outgoing registry migrations entry = none := by
          rw [outgoing, migrated]
        rw [List.filterMap_cons, stays]
        exact ih { fill with held := fill.held ++ [(entry.id, entry.schemaVersion, toString e)] } whole
      | ok result =>
        have goes : outgoing registry migrations entry = some (result.getD entry.command) := by
          rw [outgoing, migrated]
        have spliced : (PushFill.holding fill.chosen).splice
            (Canonical.toVec (result.getD entry.command)) =
              fill.splice (Canonical.toVec (result.getD entry.command)) := by
          rw [PushFill.splice, PushFill.splice, whole, PushFill.holding_chosen]
        have room : RoomFor compressedLen budgetBytes fill.chosen (result.getD entry.command) ↔
            ¬ ((Limits.commandsMaxTotalBytes <
                  (fill.splice (Canonical.toVec (result.getD entry.command))).length ∨
                budgetBytes <
                  compressedLen (fill.splice (Canonical.toVec (result.getD entry.command)))) ∧
              fill.chosen ≠ []) := by
          rw [RoomFor, spliced, not_and_or, not_or, not_lt, not_lt, not_not]
          constructor
          · rintro ⟨_, first | fits⟩
            · exact .inr first
            · exact .inl fits
          · rintro (fits | first)
            · exact ⟨Nat.lt_of_not_le short, .inr fits⟩
            · exact ⟨Nat.lt_of_not_le short, .inl first⟩
        rw [List.filterMap_cons, goes]
        simp only [carry]
        split
        · rename_i refused
          rw [if_neg fun fits => room.mp fits refused, List.append_nil]
        · rename_i accepted
          rw [if_pos (room.mpr accepted), ih]
          · simp
          · simp only
            rw [PushFill.holding_concat, spliced]

/-! ### Pushes -/

/-- No queued command that this app cannot migrate, and that was never sent, stands
ahead of one that a request has room for. -/
def NoneLeftBehind (registry : Registry) (migrations : Migrations)
    (compressedLen : Bytes → Nat) (budgetBytes : Nat) (sent : List CommandId)
    (queue : List OutboxEntry) : Prop :=
  ∀ earlier entry later, queue = earlier ++ entry :: later →
    outgoing registry migrations entry = none → entry.id ∉ sent →
    ∀ command ∈ (later.filterMap (outgoing registry migrations)).head?,
      ¬ Fits compressedLen budgetBytes []
        (earlier.filterMap (outgoing registry migrations) ++ [command])

theorem NoneLeftBehind.takes {sent : List CommandId} {queue : List OutboxEntry}
    (none : NoneLeftBehind registry migrations compressedLen budgetBytes sent queue)
    {earlier rest : List OutboxEntry} (split : queue = earlier ++ rest)
    (fits : Fits compressedLen budgetBytes [] (earlier.filterMap (outgoing registry migrations))) :
    TakesInOrder sent rest ((carry compressedLen budgetBytes
      (earlier.filterMap (outgoing registry migrations))
      (rest.filterMap (outgoing registry migrations))).map Command.id) := by
  induction rest generalizing earlier with
  | nil => exact .done
  | cons entry rest ih =>
    have further := @ih (earlier ++ [entry]) (by rw [split, List.append_assoc]; rfl)
    rw [List.filterMap_append] at further
    cases goes : outgoing registry migrations entry with
    | some command =>
      rw [List.filterMap_cons, goes]
      simp only [carry]
      split
      · rename_i room
        rw [List.map_cons, outgoing_id goes]
        apply TakesInOrder.takes
        rw [List.filterMap_cons, goes] at further
        exact further (fits.concat room)
      · exact .done
    | none =>
      rw [List.filterMap_cons, goes]
      rw [List.filterMap_cons, goes, List.filterMap_nil, List.append_nil] at further
      cases behind : rest.filterMap (outgoing registry migrations) with
      | nil => exact .done
      | cons command others =>
        by_cases room : RoomFor compressedLen budgetBytes
            (earlier.filterMap (outgoing registry migrations)) command
        · apply TakesInOrder.passes
          · by_contra unsent
            refine none earlier entry rest split goes unsent command ?_ (fits.concat room)
            rw [behind]
            rfl
          · rw [← behind]
            exact further fits
        · simp only [carry, if_neg room, List.map_nil]
          exact .done

/-- Nothing is left behind where whatever cannot be migrated was sent before. -/
theorem NoneLeftBehind.of_sent {sent : List CommandId} {queue : List OutboxEntry}
    (before : ∀ entry ∈ queue, (outgoing registry migrations entry).isNone → entry.id ∈ sent) :
    NoneLeftBehind registry migrations compressedLen budgetBytes sent queue := by
  intro earlier entry later split stays unsent
  exact absurd (before entry (by simp [split]) (by rw [stays]; rfl)) unsent

/-- A device and the commands of every request it has built. -/
structure Courier where
  device : Device
  sent : List CommandId := []

section Requests

variable [Hashing]

/-- The commands in the request that an event builds. -/
def Device.requests (device : Device) : ClientEvent → List CommandId
  | .call faults (.buildPush compressedLen protocol budgetBytes) =>
    match (device.buildPush faults compressedLen protocol budgetBytes).1 with
    | .ok (some request) => request.commands.map Command.id
    | _ => []
  | _ => []

def Courier.react (courier : Courier) (event : ClientEvent) : Courier :=
  ⟨courier.device.react event, courier.sent ++ courier.device.requests event⟩

def Courier.Reacts (before : Courier) (event : ClientEvent) (after : Courier) : Prop :=
  after = before.react event

/-- No push leaves a command behind that was never sent. -/
def Courier.Patient (courier : Courier) : ClientEvent → Prop
  | .call _ (.buildPush compressedLen _ budgetBytes) =>
      NoneLeftBehind courier.device.engine.registry courier.device.engine.migrations compressedLen
        budgetBytes courier.sent courier.device.db.outbox
  | _ => True

omit [Hashing] in
/-- A push takes the stored outbox in order, unless it leaves a command behind. -/
theorem Courier.Patient.takes {courier : Courier} (patient : courier.Patient event)
    (queues : courier.device.Queues) :
    TakesInOrder courier.sent courier.device.db.outbox (courier.device.requests event) := by
  cases event with
  | restart registry migrations scopes => exact .done
  | call faults call =>
    cases call with
    | buildPush compressedLen protocol budgetBytes =>
      simp only [Device.requests]
      split
      · rename_i request asked
        rw [Device.buildPush_request queues asked, fillPush_carries _ _ rfl, List.nil_append]
        exact NoneLeftBehind.takes patient (List.nil_append _).symm trivial
      · exact .done
    | applyBatch _ | applyBootstrap _ | beginRebootstrap _ | reloadScope _ | clearScopeHealth _
    | enqueue _ | applyResults _ => exact .done

/-- While no push leaves a command behind that was never sent, commands reach the
server in the order they were queued in: over any run of calls and restarts, a request
takes the stored outbox in order and passes over only what was sent in one before. -/
theorem pushes_keep_order (registry : Registry) (migrations : Migrations)
    (scopes : List ScopeId) (events : List ClientEvent) (event : ClientEvent)
    (courier after : Courier)
    (run : Transition.Run (Transition.Guarded Courier.Reacts Courier.Patient)
      ⟨Device.restart registry migrations scopes {}, []⟩ events courier)
    (step : Transition.Guarded Courier.Reacts Courier.Patient courier event after) :
    TakesInOrder courier.sent courier.device.db.outbox (courier.device.requests event) := by
  have start : (Device.restart registry migrations scopes {}).Queues := by
    obtain ⟨restored, health, engine⟩ := Device.restart_engine registry migrations scopes {}
    intro _
    rw [engine]
    rfl
  have kept : ∀ (before : Courier) (event : ClientEvent) (after : Courier),
      before.device.Queues → Transition.Guarded Courier.Reacts Courier.Patient before event after →
      after.device.Queues := by
    rintro before event after queues ⟨_, rfl⟩
    exact (Device.react_moves queues event).2
  have queues := run.invariant kept start
  exact step.1.takes queues

end Requests

namespace Sample

attribute [local instance] noteHashes

def nextSchema : SchemaVersion := 2

/-- An edit authored after an upgrade. -/
def laterEdit : OutboxEntry where
  command := { edit.command with
    id := secondCommand }
  schemaVersion := nextSchema

def push : ClientEvent := .call .none (.buildPush List.length 1 4096)

/-- The app comes back with notes of another schema and no migration to it. -/
def withoutMigration : List ClientEvent :=
  [.restart (app nextSchema) Migrations.new [scope], .call .none (.enqueue laterEdit)]

/-- The first edit is sent before the upgrade that leaves it without a migration. -/
theorem sentBeforeUpgrade_ordered : ∃ courier,
    Transition.Run (Transition.Guarded Courier.Reacts Courier.Patient)
      ⟨Device.restart (app schema) Migrations.new [scope] {}, []⟩
      ([.call .none (.enqueue edit), push] ++ withoutMigration) courier ∧
    courier.device.requests push = [laterEdit.id] ∧
    TakesInOrder courier.sent courier.device.db.outbox [laterEdit.id] := by
  let tidy : Courier → Bool := fun courier => decide (∀ entry ∈ courier.device.db.outbox,
    (outgoing courier.device.engine.registry courier.device.engine.migrations entry).isNone →
      entry.id ∈ courier.sent)
  have followed : (Transition.follow (fun courier _ => tidy courier)
      (fun courier event => some (Courier.react courier event))
      ⟨Device.restart (app schema) Migrations.new [scope] {}, []⟩
      ([.call .none (.enqueue edit), push] ++ withoutMigration)).any (fun courier =>
        tidy courier && decide (courier.device.requests push = [laterEdit.id])) = true := by
    decide +kernel
  have patient : ∀ (courier : Courier) event, tidy courier = true → courier.Patient event := by
    intro courier event sent
    cases event with
    | restart registry migrations scopes => trivial
    | call faults call =>
      cases call with
      | buildPush compressedLen protocol budgetBytes =>
        exact .of_sent (of_decide_eq_true sent)
      | applyBatch _ | applyBootstrap _ | beginRebootstrap _ | reloadScope _ | clearScopeHealth _
      | enqueue _ | applyResults _ => trivial
  have taken : ∀ (before : Courier) (event : ClientEvent) after, tidy before = true →
      some (before.react event) = some after →
      Transition.Guarded Courier.Reacts Courier.Patient before event after :=
    fun before event _ sent goes => ⟨patient before event sent, (Option.some.inj goes).symm⟩
  obtain ⟨courier, run, test⟩ := Transition.Run.of_follow_any taken followed
  obtain ⟨sent, request⟩ := Bool.and_eq_true_iff.mp test
  have asked : courier.device.requests push = [laterEdit.id] := of_decide_eq_true request
  refine ⟨courier, run, asked, ?_⟩
  rw [← asked]
  exact pushes_keep_order (app schema) Migrations.new [scope] _ push courier _ run
    ⟨patient courier push sent, rfl⟩

/-- The first edit was never sent, and the later one does not wait for it. -/
theorem upgraded_overtakes : ∃ courier,
    Transition.Run Courier.Reacts
      ⟨Device.restart (app schema) Migrations.new [scope] {}, []⟩
      (.call .none (.enqueue edit) :: withoutMigration) courier ∧
    courier.sent = [] ∧ courier.device.db.outbox.map OutboxEntry.id = [edit.id, laterEdit.id] ∧
    courier.device.requests push = [laterEdit.id] ∧
    ¬ TakesInOrder courier.sent courier.device.db.outbox (courier.device.requests push) := by
  have followed : (Transition.follow (fun _ _ => true)
      (fun courier event => some (Courier.react courier event))
      ⟨Device.restart (app schema) Migrations.new [scope] {}, []⟩
      (.call .none (.enqueue edit) :: withoutMigration)).any (fun courier =>
        decide (courier.sent = [] ∧
          courier.device.db.outbox.map OutboxEntry.id = [edit.id, laterEdit.id] ∧
          courier.device.requests push = [laterEdit.id])) = true := by
    decide +kernel
  have taken : ∀ (before : Courier) (event : ClientEvent) after, true = true →
      some (before.react event) = some after → Courier.Reacts before event after :=
    fun _ _ _ _ goes => (Option.some.inj goes).symm
  obtain ⟨courier, run, test⟩ := Transition.Run.of_follow_any taken followed
  obtain ⟨sent, queued, asked⟩ := of_decide_eq_true test
  refine ⟨courier, run, sent, queued, asked, ?_⟩
  rw [sent, asked]
  obtain ⟨first, rest, queue, same, _⟩ := List.map_eq_cons_iff.mp queued
  have apart : first.id ≠ laterEdit.id := by
    rw [same]
    decide
  rw [queue]
  generalize laterEdit.id = id at apart
  intro takes
  cases takes with
  | takes => exact apart rfl
  | passes _ before => cases before

end Sample

end CredSync
