import CredSync.Core.Dispatch
import CredSync.Sim.Parties

/-! A device's turn in a world, and what it makes of a response. Whatever is drawn for it, a
device stays sound: its memory mirrors its storage, it holds the first changes of the server's
log, and its storage only goes forward. -/

namespace CredSync

/-! ### Honest storage -/

theorem Device.refreshIfSuspect_honest (device : Device) (scope : ScopeId) :
    ∃ fresh, device.refreshIfSuspect .none scope = (.ok (), fresh) ∧ fresh.db = device.db := by
  unfold refreshIfSuspect
  split
  · exact ⟨_, rfl, rfl⟩
  · exact ⟨_, rfl, rfl⟩

theorem Device.refreshOutboxIfSuspect_honest (device : Device) : ∃ outbox outboxSuspect,
    device.refreshOutboxIfSuspect .none = (.ok (), { device with
      engine := { device.engine with outbox := outbox, outboxSuspect := outboxSuspect } }) ∧
    (device.Queues → outbox = device.db.outbox) := by
  unfold refreshOutboxIfSuspect
  split
  · exact ⟨_, _, rfl, fun _ => rfl⟩
  · rename_i trusted
    exact ⟨_, _, rfl, fun queues => queues (Bool.eq_false_of_not_eq_true trusted)⟩

end CredSync

namespace CredSync.Sim

/-! ### Calls that leave the pull side alone -/

/-- A call that is no batch, page or rebuild. -/
def StaysPut : ClientCall → Prop
  | .enqueue _ | .applyResults _ | .buildPush .. | .reloadScope _ => True
  | _ => False

section Calls

variable [Hashing] {device : Device} {log received : List Change} {scope : ScopeId}

theorem reads_call (reads : device.Reads log scope received) (faults : Faults) (call : ClientCall)
    (stays : StaysPut call) : (device.call faults call).Reads log scope received ∧
      (device.call faults call).db.cursors = device.db.cursors := by
  have framed {after : Device} (same : device.SameScopes after) (leaves : device.LeavesHealth after) :
      after.Reads log scope received ∧ after.db.cursors = device.db.cursors :=
    ⟨reads.frame same.rows same.cursors same.digests leaves.health leaves.divergences, same.cursors⟩
  cases call with
  | applyBatch _ => exact stays.elim
  | applyBootstrap _ => exact stays.elim
  | beginRebootstrap _ => exact stays.elim
  | clearScopeHealth _ => exact stays.elim
  | enqueue entry => exact framed (device.enqueue_same faults entry) (device.enqueue_health faults entry)
  | applyResults response =>
    exact framed (device.applyResults_same faults response) (device.applyResults_health faults response)
  | buildPush compressedLen protocol budgetBytes =>
    exact framed (device.buildPush_same faults compressedLen protocol budgetBytes)
      (device.buildPush_health faults compressedLen protocol budgetBytes)
  | reloadScope other =>
    have same := device.reloadScope_same faults other
    have leaves := device.reloadScope_health faults other
    obtain ⟨scopes, suspect, refreshed⟩ := device.refreshIfSuspect_eq faults other
    rw [refreshed] at same
    exact ⟨reads.frame same.rows same.cursors same.digests leaves.health leaves.divergences,
      same.cursors⟩

end Calls

/-! ### A sound device -/

/-- Every byte of the counter is in the identifier. -/
theorem commandId_injective (device : UInt8) : Function.Injective (commandId device) := by
  intro a b same
  have bytes := congrArg (fun id : CommandId => id.bytes.toList.map UInt8.toNat) same
  simp only [commandId, Vector.toList_mk, List.map_cons, List.cons.injEq, and_true, true_and,
    UInt32.toNat_toUInt8, UInt32.toNat_shiftRight, UInt32.reduceToNat, Nat.reduceMod,
    Nat.shiftRight_eq_div_pow] at bytes
  obtain ⟨first, second, third, fourth⟩ := bytes
  refine UInt32.toNat_inj.mp ?_
  have fits := a.toNat_lt
  have fits' := b.toNat_lt
  omega

/-- What holds of the device at some index whenever it is not in a call. -/
structure SimDevice.Sound [Hashing] (d : SimDevice) (server : Server) (scope : ScopeId)
    (entity : EntityName) (index : Nat) (received : List Change) : Prop where
  registered : d.device.engine.registry = Registry.reflecting entity scope
  migrations : d.device.engine.migrations = Migrations.new
  current : d.device.engine.upgradeRequired = none
  mirrors : d.device.Mirrors
  reads : d.device.Reads (server.readable scope) scope received
  owes : d.device.Owes server entity
  own : ∀ id ∈ d.device.db.enqueued, ∃ n : UInt32, n.toNat < d.commandsAuthored.toNat ∧
    id = commandId (UInt8.ofNat index) n

/-- The engine of a restart holds what the database does, and nothing else. -/
theorem reloaded_eq (entity : EntityName) (scope : ScopeId) (db : Db) :
    ∃ scopes, reloaded entity scope db =
        { registry := Registry.reflecting entity scope, scopes := scopes, outbox := db.outbox } ∧
      scopes = match db.cursors.lookup scope with
        | some cursor => (∅ : Table ScopeId ScopeState).insert scope
            ⟨cursor, ((db.digests.lookup scope).bind digestFromHex).getD ScopeDigest.empty⟩
        | none => ∅ := by
  unfold reloaded
  cases db.cursors.lookup scope with
  | some cursor => exact ⟨_, rfl, rfl⟩
  | none => exact ⟨_, rfl, rfl⟩

theorem reloaded_mirrors (entity : EntityName) {scope : ScopeId} {db : Db}
    (alone : ∀ other, other ≠ scope → db.cursors.lookup other = none) :
    Device.Mirrors ⟨reloaded entity scope db, db⟩ := by
  obtain ⟨scopes, reloads, restored⟩ := reloaded_eq entity scope db
  intro other _
  rw [reloads]
  change (scopes.lookup other).getD ScopeState.new = db.position other
  rw [restored, Db.position, Db.stored]
  by_cases here : other = scope
  · rw [here]
    cases db.cursors.lookup scope with
    | none => rfl
    | some cursor =>
      rw [Finmap.lookup_insert]
      cases db.digests.lookup scope with
      | none =>
        exact (ScopeDigest.restored_toHex cursor ScopeDigest.empty).symm
      | some digest => rfl
  · rw [alone other here]
    cases db.cursors.lookup scope with
    | none => rfl
    | some cursor => rw [Finmap.lookup_insert_of_ne _ here]; rfl

/-- A push carries the first commands of those that wait. -/
theorem carry_begins {compressedLen : Bytes → Nat} {budgetBytes : Nat} (chosen commands : List Command) :
    carry compressedLen budgetBytes chosen commands <+: commands := by
  induction commands generalizing chosen with
  | nil => exact List.prefix_rfl
  | cons command rest ih =>
    rw [carry]
    split
    · exact (List.prefix_cons_inj command).mpr (ih _)
    · exact List.nil_prefix

namespace SimDevice

section Sound

variable [Hashing] {d : SimDevice} {server later : Server} {scope : ScopeId} {entity : EntityName}
  {index : Nat} {received : List Change}

theorem Sound.goesOn (sound : d.Sound server scope entity index received)
    (goes : Server.GoesOn scope server later) : d.Sound later scope entity index received :=
  { sound with
    reads := sound.reads.grown goes.readable
    owes := sound.owes.goesOn goes }

/-- What a call leaves of the parts of a sound device that every call keeps. -/
theorem Sound.keeps (sound : d.Sound server scope entity index received) (faults : Faults)
    (call : ClientCall) :
    (d.device.call faults call).engine.registry = Registry.reflecting entity scope ∧
      (d.device.call faults call).engine.migrations = Migrations.new ∧
      (d.device.call faults call).engine.upgradeRequired = none ∧
      (d.device.call faults call).Mirrors :=
  ⟨(d.device.call_registered faults call).1.trans sound.registered,
    (d.device.call_registered faults call).2.trans sound.migrations,
    (d.device.call_upgrade faults call).trans sound.current, sound.mirrors.call faults call⟩

/-- A call that queues nothing knows no new command. -/
theorem Sound.known (sound : d.Sound server scope entity index received) (faults : Faults)
    (call : ClientCall) (silent : call.queues = none) :
    (d.device.call faults call).db.enqueued = d.device.db.enqueued := by
  have moves := (d.device.call_moves sound.owes.queues faults call).1
  rw [silent] at moves
  cases moves with
  | kept _ _ enqueued => exact enqueued
  | resolved answering resolves _ same => rw [same, resolves.keeps]

theorem Sound.restarts (sound : d.Sound server scope entity index received) {divisor : Nat}
    {pending : List WireRequest} {online pendingKill : Bool} :
    Sound { d with
      device := ⟨reloaded entity scope d.device.db, d.device.db⟩
      divisor := divisor
      pending := pending
      online := online
      pendingKill := pendingKill } server scope entity index received := by
  have mirrors := reloaded_mirrors entity sound.reads.holds.alone
  obtain ⟨scopes, reloads, -⟩ := reloaded_eq entity scope d.device.db
  rw [reloads] at mirrors ⊢
  exact {
    registered := rfl
    migrations := rfl
    current := rfl
    mirrors := mirrors
    reads := ⟨sound.reads.holds, sound.reads.read, rfl, sound.reads.undiverged⟩
    owes := { sound.owes with queues := fun _ => rfl }
    own := sound.own }

/-! ### Calls whose transaction may fail -/

omit [Hashing] in
theorem armStorage_cases {Gen : Type} [Chance Gen] (rates : FaultRates) (d : SimDevice) (rng : Gen) :
    ∃ verdict pendingKill rng', d.armStorage rates rng =
      (verdict, { d with pendingKill := pendingKill }, rng') := by
  unfold armStorage
  split <;> exact ⟨_, _, _, rfl⟩

/-- A call is made under some verdict, and the process may be killed after it. -/
theorem exposed_of {Gen : Type} [Chance Gen] (holds : SimDevice → Prop) {call : ClientCall}
    (called : ∀ verdict pendingKill, holds { d with
      device := d.device.call { verdict := verdict } call
      pendingKill := pendingKill })
    (restarts : ∀ after (rng : Gen), holds after → holds (after.restart entity scope rng).1)
    (rates : FaultRates) (rng : Gen) : holds (d.exposed entity scope rates call rng).1 := by
  obtain ⟨verdict, pendingKill, rng', armed⟩ := armStorage_cases rates d rng
  unfold exposed
  rw [armed]
  cases pendingKill with
  | true => exact restarts _ rng' (called verdict false)
  | false => exact called verdict false

/-- What a call, or a restart after it, leaves of a device that is waiting. -/
structure Moved (scope : ScopeId) (d after : SimDevice) : Prop where
  later : d.device.db.Later scope after.device.db
  authored : after.commandsAuthored = d.commandsAuthored
  sent : after.requestsSent = d.requestsSent
  pending : after.pending = d.pending ∨ after.pending = []

omit [Hashing] in
theorem Moved.refl (scope : ScopeId) (d : SimDevice) : Moved scope d d :=
  ⟨.refl _, rfl, rfl, .inl rfl⟩

omit [Hashing] in
theorem Moved.trans {middle after : SimDevice} (first : Moved scope d middle)
    (second : Moved scope middle after) : Moved scope d after where
  later := first.later.trans second.later
  authored := second.authored.trans first.authored
  sent := second.sent.trans first.sent
  pending := by
    rcases second.pending with same | none
    · rw [same]
      exact first.pending
    · exact .inr none

omit [Hashing] in
theorem Moved.restarts {Gen : Type} [Chance Gen] {after : SimDevice} (moved : Moved scope d after)
    (rng : Gen) : Moved scope d (after.restart entity scope rng).1 :=
  moved.trans ⟨.refl _, rfl, rfl, .inr rfl⟩

/-- A device that an exposed call or a restart may leave behind, further along its log or not. -/
structure Leaves (d after : SimDevice) (server : Server) (scope : ScopeId) (entity : EntityName)
    (index : Nat) (received received' : List Change) : Prop where
  sound : after.Sound server scope entity index received'
  moved : Moved scope d after
  forward : received <+: received'

theorem Leaves.trans {middle after : SimDevice} {received' received'' : List Change}
    (first : Leaves d middle server scope entity index received received')
    (second : Leaves middle after server scope entity index received' received'') :
    Leaves d after server scope entity index received received'' :=
  ⟨second.sound, first.moved.trans second.moved, first.forward.trans second.forward⟩

theorem Leaves.restarts {Gen : Type} [Chance Gen] {after : SimDevice} {received' : List Change}
    (leaves : Leaves d after server scope entity index received received') (rng : Gen) :
    Leaves d (after.restart entity scope rng).1 server scope entity index received received' :=
  ⟨leaves.sound.restarts, leaves.moved.restarts rng, leaves.forward⟩

/-- Results the server has recorded resolve what they answer. -/
theorem Sound.results (sound : d.Sound server scope entity index received) {response : PushResponse}
    (recorded : ∀ result ∈ response.results, ∃ known,
      server.recorded result.id = some known ∧ known.result = result)
    (faults : Faults) (pendingKill : Bool) :
    Leaves d { d with
      device := d.device.call faults (.applyResults response)
      pendingKill := pendingKill } server scope entity index received received := by
  obtain ⟨registered, migrations, current, mirrors⟩ := sound.keeps faults (.applyResults response)
  obtain ⟨reads, cursors⟩ := reads_call sound.reads faults (.applyResults response) trivial
  have moves := (d.device.call_moves sound.owes.queues faults (.applyResults response)).1
  have known := sound.known faults (.applyResults response) rfl
  refine ⟨⟨registered, migrations, current, mirrors, reads,
    sound.owes.applyResults sound.registered faults recorded, fun id member => sound.own id ?_⟩,
    ⟨sound.owes.ledger.later moves nofun (stays_same cursors), rfl, rfl, .inl rfl⟩, List.prefix_rfl⟩
  rw [← known]
  exact member

theorem Sound.lands (sound : d.Sound server scope entity index received)
    (serves : server.Serves scope entity) :
    ∀ change ∈ server.readable scope, d.device.engine.lands change = true := by
  intro change member
  obtain ⟨seq, entityId, rfl⟩ := serves.upserted ((server.readable_begins scope).subset member)
  exact Engine.lands_reflecting entity scope sound.registered

/-- A batch that may be in flight. -/
theorem Sound.batch (sound : d.Sound server scope entity index received)
    (serves : server.Serves scope entity) {batch : Batch}
    (expects : Expects (server.readable scope) scope received batch) (faults : Faults)
    (pendingKill : Bool) : ∃ received', Leaves d { d with
      device := d.device.call faults (.applyBatch batch)
      pendingKill := pendingKill } server scope entity index received received' ∧
        (received' = received ∨ lastSeq received' = batch.nextCursor.get) := by
  obtain ⟨registered, migrations, current, mirrors⟩ := sound.keeps faults (.applyBatch batch)
  obtain ⟨received', went⟩ := sound.reads.applyBatch sound.mirrors (sound.lands serves)
    (serves.coherent.log scope).ascending expects faults
  have moves := (d.device.call_moves sound.owes.queues faults (.applyBatch batch)).1
  have known := sound.known faults (.applyBatch batch) rfl
  refine ⟨received', ⟨⟨registered, migrations, current, mirrors, went.reads,
    sound.owes.unanswered faults (.applyBatch batch) nofun nofun, fun id member => sound.own id ?_⟩,
    ⟨sound.owes.ledger.later moves nofun went.cursor, rfl, rfl, .inl rfl⟩, went.forward⟩, went.ends⟩
  rw [← known]
  exact member

/-- A call that neither queues nor answers. -/
theorem Sound.looks (sound : d.Sound server scope entity index received) (faults : Faults)
    (call : ClientCall) (stays : StaysPut call) (silent : call.queues = none)
    (unanswered : ∀ response, call ≠ .applyResults response) :
    Leaves d { d with device := d.device.call faults call } server scope entity index received
      received := by
  obtain ⟨registered, migrations, current, mirrors⟩ := sound.keeps faults call
  obtain ⟨reads, cursors⟩ := reads_call sound.reads faults call stays
  have moves := (d.device.call_moves sound.owes.queues faults call).1
  have known := sound.known faults call silent
  have entering : ∀ entry ∈ call.queues,
      entry.id ∉ d.device.db.enqueued ∧ entry.Reflects := by
    rw [silent]
    nofun
  refine ⟨⟨registered, migrations, current, mirrors, reads, sound.owes.unanswered faults call unanswered
    entering, fun id member => sound.own id ?_⟩, ⟨sound.owes.ledger.later moves
      (fun entry enters => (entering entry enters).1) (stays_same cursors), rfl, rfl, .inl rfl⟩,
    List.prefix_rfl⟩
  rw [← known]
  exact member

/-- A new command has an identifier that none was queued under. -/
theorem Sound.enqueues (sound : d.Sound server scope entity index received)
    (room : d.commandsAuthored.toNat + 1 < 2 ^ 32) (faults : Faults) (pendingKill : Bool) :
    Leaves { d with commandsAuthored := d.commandsAuthored + 1 } { d with
      commandsAuthored := d.commandsAuthored + 1
      device := d.device.call faults (.enqueue ⟨d.nextCommand scope index, 1⟩)
      pendingKill := pendingKill } server scope entity index received received := by
  obtain ⟨registered, migrations, current, mirrors⟩ :=
    sound.keeps faults (.enqueue ⟨d.nextCommand scope index, 1⟩)
  obtain ⟨reads, cursors⟩ := reads_call sound.reads faults
    (.enqueue ⟨d.nextCommand scope index, 1⟩) trivial
  have moves := (d.device.call_moves sound.owes.queues faults
    (.enqueue ⟨d.nextCommand scope index, 1⟩)).1
  have next : (d.commandsAuthored + 1).toNat = d.commandsAuthored.toNat + 1 := by
    rw [UInt32.toNat_add]
    exact Nat.mod_eq_of_lt room
  have unused : (d.nextCommand scope index).id ∉ d.device.db.enqueued := by
    intro used
    obtain ⟨n, below, same⟩ := sound.own _ used
    rw [← commandId_injective _ same] at below
    exact lt_irrefl _ below
  have entering : ∀ entry ∈ (ClientCall.enqueue ⟨d.nextCommand scope index, 1⟩).queues,
      entry.id ∉ d.device.db.enqueued ∧ entry.Reflects := by
    intro entry enters
    cases enters
    exact ⟨unused, ⟨rfl, rfl⟩, rfl⟩
  have own : ∀ id ∈ (d.device.call faults (.enqueue ⟨d.nextCommand scope index, 1⟩)).db.enqueued,
      ∃ n : UInt32, n.toNat < (d.commandsAuthored + 1).toNat ∧
        id = commandId (UInt8.ofNat index) n := by
    intro id member
    have cases : id ∈ d.device.db.enqueued ∨ id = (d.nextCommand scope index).id := by
      cases moves with
      | kept _ _ enqueued => exact .inl (enqueued ▸ member)
      | queued _ _ _ enqueued =>
        rw [enqueued] at member
        exact (Finset.mem_insert.mp member).symm
    rw [next]
    rcases cases with before | rfl
    · obtain ⟨n, below, same⟩ := sound.own id before
      exact ⟨n, Nat.lt_succ_of_lt below, same⟩
    · exact ⟨d.commandsAuthored, Nat.lt_succ_self _, rfl⟩
  exact ⟨⟨registered, migrations, current, mirrors, reads,
    sound.owes.unanswered faults (.enqueue ⟨d.nextCommand scope index, 1⟩) nofun entering, own⟩,
    ⟨sound.owes.ledger.later moves (fun entry enters => (entering entry enters).1)
      (stays_same cursors), rfl, rfl, .inl rfl⟩, List.prefix_rfl⟩

/-! ### Requests -/

/-- What a push asks is the first part of the outbox, and some of it if there is any. -/
theorem Sound.pushed (sound : d.Sound server scope entity index received) {request : PushRequest}
    {protocol : ProtocolVersion} {budgetBytes : Nat}
    (asked : (d.device.buildPush .none d.compressed protocol budgetBytes).1 = .ok (some request)) :
    request.commands <+: d.device.db.outbox.map OutboxEntry.command ∧
      (d.device.db.outbox ≠ [] → request.commands ≠ []) := by
  have commands := Device.buildPush_request sound.owes.queues asked
  have going : d.device.db.outbox.filterMap
      (outgoing d.device.engine.registry d.device.engine.migrations) =
        d.device.db.outbox.map OutboxEntry.command := by
    rw [← List.filterMap_eq_map]
    refine List.filterMap_congr fun entry member => ?_
    have reflects := sound.owes.authored entry member
    unfold outgoing migratedCommand
    rw [sound.registered, reflects.command.name, Registry.reflecting_target]
    simp only [Registry.reflecting_schema, reflects.schema, if_true]
    rfl
  rw [fillPush_carries _ _ rfl, List.nil_append, going] at commands
  rw [commands]
  refine ⟨carry_begins [] _, fun some nothing => ?_⟩
  cases queued : d.device.db.outbox.map OutboxEntry.command with
  | nil => exact some (List.map_eq_nil_iff.mp queued)
  | cons first rest =>
    rw [queued, carry, if_pos ⟨by decide, .inl rfl⟩] at nothing
    cases nothing

omit [Hashing] in
/-- Over honest storage building a push reads, and fails only to find anything queued. -/
theorem buildPush_honest (device : Device) (compressedLen : Bytes → Nat) (protocol : ProtocolVersion)
    (budgetBytes : Nat) (current : device.engine.upgradeRequired = none) :
    (device.buildPush .none compressedLen protocol budgetBytes).2.db = device.db ∧
      (device.Queues → device.db.outbox ≠ [] → ∃ request,
        (device.buildPush .none compressedLen protocol budgetBytes).1 = .ok (some request)) := by
  obtain ⟨outbox, doubt, reread, exact'⟩ := device.refreshOutboxIfSuspect_honest
  unfold Device.buildPush
  rw [reread]
  simp only [current, Option.isSome_none, Bool.false_eq_true, if_false]
  split
  · rename_i nothing
    refine ⟨rfl, fun queues queued => ?_⟩
    rw [← exact' queues] at queued
    exact absurd (List.isEmpty_iff.mp nothing) queued
  · exact ⟨rfl, fun _ _ => ⟨_, rfl⟩⟩

omit [Hashing] in
/-- Over honest storage a reload succeeds. -/
theorem reloadScope_honest (device : Device) (scope : ScopeId) :
    (device.reloadScope .none scope).1 = .ok () ∧ (device.reloadScope .none scope).2.db = device.db := by
  obtain ⟨fresh, refresh, same⟩ := device.refreshIfSuspect_honest scope
  obtain ⟨outbox, doubt, read, -⟩ := fresh.refreshOutboxIfSuspect_honest
  unfold Device.reloadScope
  rw [refresh]
  simp only [read]
  exact ⟨trivial, same⟩

/-- A push is asked for what is queued, if the device is online. -/
theorem Sound.pushStep (sound : d.Sound server scope entity index received) :
    ∃ device, ∃ push : Option PushRequest,
      d.pushStep = { d with device := device, pending := d.pending ++ push.toList.map .push } ∧
      Leaves d { d with device := device } server scope entity index received received ∧
      device.db = d.device.db ∧
      (∀ request ∈ push, request.commands <+: d.device.db.outbox.map OutboxEntry.command) ∧
      (d.online = true → d.device.db.outbox ≠ [] → ∃ request ∈ push, request.commands ≠ []) := by
  have looks := sound.looks .none (.buildPush d.compressed 1 pushBudgetBytes) trivial rfl nofun
  obtain ⟨same, finds⟩ := buildPush_honest d.device d.compressed 1 pushBudgetBytes sound.current
  have pushed (request : PushRequest)
      (asked : (d.device.buildPush .none d.compressed 1 pushBudgetBytes).1 = .ok (some request)) :=
    sound.pushed asked
  unfold SimDevice.pushStep
  change Leaves d { d with device := (d.device.buildPush .none d.compressed 1 pushBudgetBytes).2 }
    server scope entity index received received at looks
  generalize d.device.buildPush .none d.compressed 1 pushBudgetBytes = built at *
  obtain ⟨_ | _ | request, device⟩ := built
  · exact ⟨device, none, by simp, looks, same, nofun, fun _ some =>
      nomatch finds sound.owes.queues some⟩
  · exact ⟨device, none, by simp, looks, same, nofun, fun _ some =>
      nomatch finds sound.owes.queues some⟩
  · obtain ⟨first, present⟩ := pushed request rfl
    simp only [send]
    cases chosen : request.commands.isEmpty with
    | true =>
      refine ⟨device, none, by simp, looks, same, nofun, fun _ some => ?_⟩
      exact absurd (List.isEmpty_iff.mp chosen) (present some)
    | false =>
      by_cases online : d.online = true
      · refine ⟨device, some request, by simp [online], looks, same, ?_, fun _ some =>
          ⟨request, rfl, present some⟩⟩
        rintro _ ⟨⟩
        exact first
      · exact ⟨device, none, by simp [online], looks, same, nofun, fun there => absurd there online⟩

omit [Hashing] in
theorem reloadScope_trusted {device after : Device} (done : device.reloadScope faults scope = (.ok (), after)) :
    scope ∉ after.engine.suspect := by
  unfold Device.reloadScope at done
  split at done
  · cases done
  · rename_i fresh refreshed
    have trusted := device.refreshIfSuspect_trusted refreshed
    obtain ⟨outbox, doubt, reread⟩ := fresh.refreshOutboxIfSuspect_eq faults
    split at done
    · cases done
    · rename_i last read
      cases done
      rw [read] at reread
      rw [show after = _ from reread]
      exact trusted

/-- A pull asks for what comes behind what the device holds, if it is online. -/
theorem Sound.pullStep (sound : d.Sound server scope entity index received) :
    ∃ device, ∃ pull : Option Wire.PullRequest,
      d.pullStep scope = { d with device := device, pending := d.pending ++ pull.toList.map .pull } ∧
      Leaves d { d with device := device } server scope entity index received received ∧
      device.db = d.device.db ∧
      (∀ request ∈ pull, ∃ cursor : Cursor, request.scopes = [⟨scope, cursor⟩] ∧
        cursor.get = lastSeq received) ∧
      (d.online = true → pull.isSome = true) := by
  -- once the scope is trusted, memory has the stored cursor
  have asks {device : Device} (sound : Sound { d with device := device } server scope entity index received)
      (trusted : scope ∉ device.engine.suspect) :
      ∃ cursor : Cursor, (pullRequest scope { d with device := device }).scopes = [⟨scope, cursor⟩] ∧
        cursor.get = lastSeq received := by
    refine ⟨(device.engine.scopeStateOr scope).cursor, ?_, ?_⟩
    · simp only [pullRequest, Engine.scopeStateOr]
      cases device.engine.scopes.lookup scope <;> rfl
    · rw [sound.mirrors scope trusted]
      exact sound.reads.holds.cursor
  have sent {device : Device} (leaves : Leaves d { d with device := device } server scope entity index
      received received) (same : device.db = d.device.db) (trusted : scope ∉ device.engine.suspect) :
      ∃ device', ∃ pull : Option Wire.PullRequest,
        send { d with device := device } (.pull (pullRequest scope { d with device := device })) =
          { d with device := device', pending := d.pending ++ pull.toList.map .pull } ∧
        Leaves d { d with device := device' } server scope entity index received received ∧
        device'.db = d.device.db ∧
        (∀ request ∈ pull, ∃ cursor : Cursor, request.scopes = [⟨scope, cursor⟩] ∧
          cursor.get = lastSeq received) ∧
        (d.online = true → pull.isSome = true) := by
    unfold send
    by_cases online : d.online = true
    · refine ⟨device, some (pullRequest scope { d with device := device }), by simp [online], leaves,
        same, ?_, fun _ => rfl⟩
      rintro _ ⟨⟩
      exact asks leaves.sound trusted
    · refine ⟨device, none, by simp [online], leaves, same, ?_, fun there => absurd there online⟩
      rintro _ ⟨⟩
  unfold SimDevice.pullStep
  split
  · have looks := sound.looks .none (.reloadScope scope) trivial rfl (by simp)
    change Leaves d { d with device := (d.device.reloadScope .none scope).2 }
      server scope entity index received received at looks
    have honest := reloadScope_honest d.device scope
    split
    · rename_i e device failed
      rw [failed] at honest
      cases honest.1
    · rename_i device done
      rw [done] at looks honest
      exact sent looks honest.2 (reloadScope_trusted done)
  · rename_i trusted
    refine sent ⟨sound, .refl scope d, List.prefix_rfl⟩ rfl fun suspect => trusted ?_
    exact decide_eq_true suspect

/-! ### A turn -/

omit [Hashing] in
theorem flap_cases {Gen : Type} [Chance Gen] (rates : FaultRates) (nowMs : Int) (d : SimDevice) (rng : Gen) :
    ∃ offlineUntilMs online rng', d.flap rates nowMs rng =
      ({ d with offlineUntilMs := offlineUntilMs, online := online }, rng') := by
  unfold flap
  split
  · exact ⟨_, _, _, rfl⟩
  · split
    · simp only
      split <;> exact ⟨_, _, _, rfl⟩
    · exact ⟨_, _, _, rfl⟩

/-- A device is as sound as its engine, its storage and its counter. -/
theorem Sound.same {after : SimDevice} (sound : d.Sound server scope entity index received)
    (device : after.device = d.device) (authored : after.commandsAuthored = d.commandsAuthored) :
    after.Sound server scope entity index received := by
  obtain ⟨⟩ := after
  obtain ⟨⟩ := d
  cases device
  cases authored
  exact { sound with }

/-- What a device asks at the end of its turn: that the first of what it has queued be looked
at, and then what comes behind what it has received. -/
structure Asks (d : SimDevice) (scope : ScopeId) (received : List Change)
    (push : Option PushRequest) (pull : Option Wire.PullRequest) : Prop where
  pending : d.pending = push.toList.map .push ++ pull.toList.map .pull
  first : ∀ request ∈ push, request.commands <+: d.device.db.outbox.map OutboxEntry.command
  onward : ∀ request ∈ pull, ∃ cursor : Cursor, request.scopes = [⟨scope, cursor⟩] ∧
    cursor.get = lastSeq received
  connected : d.online = true → pull.isSome = true ∧
    (d.device.db.outbox ≠ [] → ∃ request ∈ push, request.commands ≠ [])

/-- A push and a pull end every turn. -/
theorem Sound.asks (sound : d.Sound server scope entity index received) (idle : d.pending = []) :
    ∃ device push pull, d.pushStep.pullStep scope = { d with
        device := device
        pending := push.toList.map .push ++ pull.toList.map .pull } ∧
      Sound { d with device := device } server scope entity index received ∧
      device.db = d.device.db ∧
      Asks (d.pushStep.pullStep scope) scope received push pull := by
  obtain ⟨device, push, pushes, pushed, kept, first, present⟩ := sound.pushStep
  have sound' : (d.pushStep).Sound server scope entity index received := by
    rw [pushes]
    exact pushed.sound.same rfl rfl
  obtain ⟨device', pull, pulls, pulled, kept', onward, connected⟩ := sound'.pullStep
  rw [pushes] at pulls pulled kept' connected ⊢
  simp only [idle, List.nil_append] at pulls
  refine ⟨device', push, pull, by simpa only [idle, List.nil_append] using pulls,
    pulled.sound.same rfl rfl, kept'.trans kept, ?_⟩
  simp only [idle, List.nil_append]
  rw [pulls]
  have same : device'.db.outbox = d.device.db.outbox := by rw [kept', kept]
  exact ⟨rfl, by simpa only [same] using first, onward, fun online =>
    ⟨connected online, by simpa only [same] using present online⟩⟩

/-- What a turn leaves of a device. -/
structure Turned (d after : SimDevice) (server : Server) (scope : ScopeId) (entity : EntityName)
    (index : Nat) (received : List Change) : Prop where
  sound : after.Sound server scope entity index received
  later : d.device.db.Later scope after.device.db
  authored : after.commandsAuthored.toNat ≤ d.commandsAuthored.toNat + 1
  asks : ∃ push pull, Asks after scope received push pull

theorem Sound.turn {Gen : Type} [Chance Gen] {world : World Gen}
    (sound : d.Sound server world.scope world.entity index received) (idle : d.pending = [])
    (room : d.commandsAuthored.toNat + 1 < 2 ^ 32) (rng : Gen) :
    Turned d (d.turn world index rng).1 server world.scope world.entity index received := by
  -- each part of a turn leaves a sound device with nothing pending
  have flapped (rng : Gen) : ∃ after rng', d.flap world.rates world.nowMs rng = (after, rng') ∧
      Leaves d after server world.scope world.entity index received received := by
    obtain ⟨offlineUntilMs, online, rng', flaps⟩ := flap_cases world.rates world.nowMs d rng
    exact ⟨_, rng', flaps, sound.same rfl rfl, ⟨.refl _, rfl, rfl, .inl rfl⟩, List.prefix_rfl⟩
  have restarted {middle : SimDevice} (leaves : Leaves d middle server world.scope world.entity index
      received received) (restarts : Bool) (rng : Gen) : ∃ after rng',
      (if restarts then middle.restart world.entity world.scope rng else (middle, rng)) =
        (after, rng') ∧ Leaves d after server world.scope world.entity index received received := by
    cases restarts with
    | true => exact ⟨_, _, rfl, leaves.restarts rng⟩
    | false => exact ⟨_, _, rfl, leaves⟩
  have authored {middle : SimDevice} (leaves : Leaves d middle server world.scope world.entity index
      received received) (authors : Bool) (rng : Gen) : ∃ after rng',
      (if authors then middle.authorCommand world.entity world.scope world.rates index rng
        else (middle, rng)) = (after, rng') ∧
      after.Sound server world.scope world.entity index received ∧
      d.device.db.Later world.scope after.device.db ∧
      after.commandsAuthored.toNat ≤ d.commandsAuthored.toNat + 1 ∧ after.pending = [] := by
    have none : middle.pending = [] := leaves.moved.pending.elim (·.trans idle) id
    cases authors with
    | false =>
      exact ⟨_, _, rfl, leaves.sound, leaves.moved.later, by rw [leaves.moved.authored]; omega, none⟩
    | true =>
      have room' : middle.commandsAuthored.toNat + 1 < 2 ^ 32 := by rwa [leaves.moved.authored]
      have next : (middle.commandsAuthored + 1).toNat = d.commandsAuthored.toNat + 1 := by
        rw [UInt32.toNat_add, leaves.moved.authored]
        exact Nat.mod_eq_of_lt room
      let counted := { middle with commandsAuthored := middle.commandsAuthored + 1 }
      have enqueued : Leaves counted (middle.authorCommand world.entity world.scope world.rates
          index rng).1 server world.scope world.entity index received received :=
        exposed_of (fun after => Leaves counted after server world.scope world.entity index received
            received) (fun verdict => leaves.sound.enqueues room' { verdict := verdict })
          (fun _ rng left => left.restarts rng) world.rates rng
      refine ⟨_, _, rfl, enqueued.sound, leaves.moved.later.trans enqueued.moved.later, ?_, ?_⟩
      · exact (congrArg UInt32.toNat enqueued.moved.authored).trans next |>.le
      · exact enqueued.moved.pending.elim (·.trans none) id
  obtain ⟨first, rng₁, flaps, left⟩ := flapped rng
  unfold SimDevice.turn
  simp only [flaps]
  generalize Chance.chance world.rates.deviceRestart rng₁ = drawn
  obtain ⟨second, rng₂, restarts, left⟩ := restarted left drawn.1 drawn.2
  rw [restarts]
  generalize (if world.quiet then (false, rng₂) else Chance.chance 1 rng₂) = drawn
  obtain ⟨third, rng₃, authors, sound', later, counted, none⟩ := authored left drawn.1 drawn.2
  simp only [authors]
  obtain ⟨device, push, pull, asked, sound'', kept, asks⟩ := sound'.asks none
  refine ⟨?_, ?_, ?_, push, pull, asks⟩
  · rw [asked]
    exact sound''.same rfl rfl
  · rw [asked]
    exact later.trans (kept ▸ .refl _)
  · rw [asked]
    exact counted

end Sound

end SimDevice

end CredSync.Sim
