import CredSync.Core.Drafts
import CredSync.Core.Health
import CredSync.Core.Upgrade
import CredSync.Sim.Serving

/-! One device of a world. On its pull side it holds the first changes of the server's log,
whatever page it is handed late, twice or with a change repeated, as long as an empty page is
not out of date. On its push side every command it took is queued or resolved as the server
recorded it. -/

namespace CredSync

/-! ### What a device has received -/

section Receiving

variable [Hashing] {scope : ScopeId} {log before received : List Change} {page batch : Batch}

theorem liveDigest_nil : liveDigest [] = ScopeDigest.empty := by
  have raw := @liveDigest_raw _ [] ∅ nofun
  exact congrArg ScopeDigest.mk raw

/-- A database that holds the first changes of a scope, and nothing of another. -/
structure Db.Holds (db : Db) (scope : ScopeId) (received : List Change) : Prop where
  version : db.version = KeyedLog.live (received.map Change.entry)
  cursor : (db.position scope).cursor.get = lastSeq received
  digest : db.digests.lookup scope =
    (db.cursors.lookup scope).map fun _ => (liveDigest received).toHex
  alone : ∀ other, other ≠ scope → db.cursors.lookup other = none

/-- The digest restored for a scope is that of what was received. -/
theorem Db.Holds.position {db : Db} (holds : db.Holds scope received) :
    (db.position scope).digest = liveDigest received := by
  have cursor := holds.cursor
  unfold Db.position Db.stored at cursor ⊢
  rw [holds.digest]
  cases known : db.cursors.lookup scope with
  | none =>
    rw [known] at cursor
    have nothing : received = [] := by
      rcases KeyedLog.reached_eq_low_or_mem (fun change : Change => change.seq.get) 0 received with
        ⟨nothing, -⟩ | ⟨change, -, reached⟩
      · exact nothing
      · have positive := change.seq.lower
        exact absurd (reached.symm.trans cursor.symm) (Nat.pos_iff_ne_zero.mp positive)
    rw [nothing, liveDigest_nil]
    rfl
  | some reached =>
    exact congrArg ScopeState.digest (ScopeDigest.restored_toHex reached (liveDigest received))

omit [Hashing] in
/-- A page that its reader can go on with was asked for where the reader is. -/
theorem before_eq_received (ascending : KeyedLog.Ascending (fun change : Change => change.seq.get) log)
    {changes : List Change} (within : before ++ changes <+: log) (read : received <+: log)
    (asked : before <+: received) (still : changes = [] → received <+: before)
    (above : ∀ change ∈ changes, lastSeq received < change.seq.get) : before = received := by
  cases changes with
  | nil => exact asked.eq_of_length_le (still rfl).length_le
  | cons next rest =>
    have ahead : lastSeq received < next.seq.get := above next List.mem_cons_self
    have through : before ++ [next] <+: log :=
      (List.prefix_append_right_inj before).mpr (List.prefix_cons_inj next |>.mpr (List.nil_prefix))
        |>.trans within
    have ends : lastSeq (before ++ [next]) = next.seq.get := by
      rw [lastSeq, KeyedLog.reached, List.getLast?_concat]
      rfl
    have short : received <+: before ++ [next] :=
      ascending.begins_of_reached (fun change _ => change.seq.lower) read through
        (ahead.le.trans ends.ge)
    rcases List.prefix_concat_iff.mp short with same | within
    · rw [same, ends] at ahead
      exact absurd ahead (lt_irrefl _)
    · exact asked.eq_of_length_le within.length_le

/-- What a response in flight may hand to a device: a page it asked for before, or one with
its last change repeated. An empty page is no older than the device. -/
def Expects (log : List Change) (scope : ScopeId) (received : List Change) (batch : Batch) : Prop :=
  ∃ before page, Sim.PageOf log scope before page ∧ before <+: received ∧
    (page.changes = [] → received <+: before) ∧
    (batch = page ∨ ∃ last ∈ page.changes, batch = { page with changes := page.changes ++ [last] })

omit [Hashing] in
/-- A page with a change repeated is never in order. -/
theorem not_ordered_repeated {last : Change} (member : last ∈ page.changes) (cursor : Nat) :
    ¬ Batch.Ordered { page with changes := page.changes ++ [last] } cursor := by
  intro ordered
  obtain ⟨-, -, below⟩ := List.pairwise_append.mp ordered.ascending
  exact absurd (below last member last (List.mem_singleton_self last)) (lt_irrefl _)

/-- A batch in order goes on with the log from where the device is. -/
theorem Expects.ordered (expects : Expects log scope received batch)
    (ascending : KeyedLog.Ascending (fun change : Change => change.seq.get) log)
    (read : received <+: log) (ordered : batch.Ordered (lastSeq received)) :
    Sim.PageOf log scope received batch := by
  obtain ⟨before, page, pageOf, asked, still, rfl | ⟨last, member, rfl⟩⟩ := expects
  · have here := before_eq_received ascending pageOf.within read asked still ordered.above
    exact here ▸ pageOf
  · exact absurd ordered (not_ordered_repeated member _)

/-- A device that has received the first changes of a log, and was never told otherwise. -/
structure Device.Reads (device : Device) (log : List Change) (scope : ScopeId)
    (received : List Change) : Prop where
  holds : device.db.Holds scope received
  read : received <+: log
  healthy : device.engine.health = ∅
  undiverged : device.db.divergences = ∅

variable {device after : Device} {plan : Plan}

theorem Device.Reads.grown {longer : List Change} (reads : device.Reads log scope received)
    (grown : log <+: longer) : device.Reads longer scope received :=
  ⟨reads.holds, reads.read.trans grown, reads.healthy, reads.undiverged⟩

theorem Device.Reads.frame (reads : device.Reads log scope received) (rows : after.db.rows = device.db.rows)
    (cursors : after.db.cursors = device.db.cursors) (digests : after.db.digests = device.db.digests)
    (health : after.engine.health = device.engine.health)
    (divergences : after.db.divergences = device.db.divergences) :
    after.Reads log scope received where
  holds := {
    version := by
      rw [← reads.holds.version]
      unfold Db.version
      rw [rows]
    cursor := by
      have same : after.db.position scope = device.db.position scope :=
        Db.position_congr (by rw [cursors]) (by rw [digests])
      rw [same]
      exact reads.holds.cursor
    digest := by
      rw [cursors, digests]
      exact reads.holds.digest
    alone := by
      rw [cursors]
      exact reads.holds.alone }
  read := reads.read
  healthy := health.trans reads.healthy
  undiverged := divergences.trans reads.undiverged

/-- A page planned where the device is: what it leaves in storage, and nothing recorded
against the scope. -/
theorem Device.Reads.plans (reads : device.Reads log scope received)
    (mirrored : device.engine.scopeStateOr scope = device.db.position scope)
    (lands : ∀ change ∈ log, device.engine.lands change = true)
    (pageOf : Sim.PageOf log scope received batch)
    (plans : device.Plans batch (!batch.hasMore) false plan) :
    (device.db.staged plan.ops).Holds scope (received ++ batch.changes) ∧
      plan.record (device.engine.scopeHealth batch.scope).attempts = none := by
  have placed := pageOf.placed
  have landing : batch.changes.filter device.engine.lands = batch.changes :=
    List.filter_eq_self.mpr fun change member =>
      lands change (pageOf.within.subset (List.mem_append_right _ member))
  have version : (device.db.staged plan.ops).version =
      KeyedLog.live ((received ++ batch.changes).map Change.entry) := by
    rw [plans.version, landing, reads.holds.version, List.map_append]
    exact KeyedLog.replay_append.symm
  have digest : plan.digest = liveDigest (received ++ batch.changes) := by
    set keys := ((received ++ batch.changes).map Change.key).toFinset
    have covers : ∀ change ∈ received ++ batch.changes, change.key ∈ keys := fun change member =>
      List.mem_toFinset.mpr (List.mem_map_of_mem member)
    have balance := plans.balance keys fun change member =>
      covers change (List.mem_append_right _ member)
    have before := liveDigest_raw fun change (member : change ∈ received) =>
      covers change (List.mem_append_left _ member)
    have whole := liveDigest_raw covers
    rw [placed, mirrored, reads.holds.position, before, reads.holds.version, sub_self, sub_eq_zero]
      at balance
    have same : plan.digest.raw = (liveDigest (received ++ batch.changes)).raw := by
      rw [balance, whole, List.map_append]
      exact congrArg _ KeyedLog.replay_append.symm
    exact congrArg ScopeDigest.mk same
  have agrees : plan.diverged = false := by
    rw [plans.diverged, digest]
    cases last : batch.hasMore with
    | true => rfl
    | false =>
      rw [pageOf.digest last]
      simp
  have healthy : device.engine.scopeHealth batch.scope = .healthy := by
    rw [Engine.scopeHealth, reads.healthy, Finmap.lookup_empty]
    rfl
  refine ⟨⟨version, ?_, ?_, ?_⟩, ?_⟩
  · rw [plans.position, if_pos placed.symm, pageOf.nextCursor]
  · rw [plans.digests, plans.cursors, placed, Finmap.lookup_insert, Finmap.lookup_insert, digest]
    rfl
  · intro other different
    rw [plans.cursors, placed, Finmap.lookup_insert_of_ne _ different]
    exact reads.holds.alone other different
  · have raised := plans.escalated
    have heals := plans.heals
    rw [agrees, Bool.false_and, if_neg Bool.false_ne_true] at raised
    rw [healthy] at heals
    have unhealed : plan.heals = false := by rw [heals]; simp [ScopeHealth.needsRebootstrap]
    rw [Plan.record, raised, unhealed]
    rfl

theorem Db.Holds.stays {db db' : Db} {received' : List Change} (holds : db.Holds scope received)
    (holds' : db'.Holds scope received') (written : db'.cursors.lookup scope ≠ none)
    (forward : lastSeq received ≤ lastSeq received') : Sim.Invariants.CursorStays scope db db' := by
  intro was before
  obtain ⟨now, after⟩ := Option.ne_none_iff_exists'.mp written
  have cursor := holds.cursor
  have cursor' := holds'.cursor
  unfold Db.position Db.stored at cursor cursor'
  rw [before] at cursor
  rw [after] at cursor'
  change was.get = lastSeq received at cursor
  change now.get = lastSeq received' at cursor'
  refine ⟨now, after, ?_⟩
  rw [cursor, cursor']
  exact forward

omit [Hashing] in
theorem stays_same {db db' : Db} (same : db'.cursors = db.cursors) :
    Sim.Invariants.CursorStays scope db db' :=
  fun was before => ⟨was, same ▸ before, le_rfl⟩

/-- What comes of a batch that was in flight: the device is where it was, or where the batch
ends, and its cursor has not gone back. -/
structure Device.Went (device after : Device) (log : List Change) (scope : ScopeId)
    (received : List Change) (batch : Batch) (received' : List Change) : Prop where
  reads : after.Reads log scope received'
  forward : received <+: received'
  cursor : Sim.Invariants.CursorStays scope device.db after.db
  ends : received' = received ∨ lastSeq received' = batch.nextCursor.get

theorem Device.Reads.applies (reads : device.Reads log scope received) (mirrors : device.Mirrors)
    (lands : ∀ change ∈ log, device.engine.lands change = true)
    (ascending : KeyedLog.Ascending (fun change : Change => change.seq.get) log)
    (expects : Expects log scope received batch) {result : Except ApplyError Applied}
    (applies : device.Applies batch (!batch.hasMore) false (result, after)) :
    ∃ received', device.Went after log scope received batch received' := by
  -- a plan was made of a page that is where the device is
  have committed {plan : Plan} (trusted : batch.scope ∉ device.engine.suspect)
      (plans : device.Plans batch (!batch.hasMore) false plan) (engine : Engine)
      (health : plan.record (device.engine.scopeHealth batch.scope).attempts = none →
        engine.health = ∅) :
      ∃ received', device.Went ⟨engine, device.db.staged plan.ops⟩ log scope received batch
        received' := by
    have mirrored : device.engine.scopeStateOr batch.scope = device.db.position batch.scope :=
      mirrors batch.scope trusted
    obtain ⟨before, page, pageOf, asked, still, form⟩ := expects
    have placed : batch.scope = scope := by
      rcases form with rfl | ⟨last, -, rfl⟩ <;> exact pageOf.placed
    rw [placed] at mirrored
    have ordered := plans.ordered
    rw [placed, mirrored, reads.holds.cursor] at ordered
    have here := Expects.ordered ⟨before, page, pageOf, asked, still, form⟩ ascending reads.read ordered
    obtain ⟨holds, unrecorded⟩ := reads.plans mirrored lands here plans
    have divergences : (device.db.staged plan.ops).divergences = ∅ := by
      rw [plans.divergences, unrecorded]
      exact reads.undiverged
    have onward : received <+: received ++ batch.changes := List.prefix_append _ _
    refine ⟨received ++ batch.changes, ⟨holds, here.within, health unrecorded, divergences⟩, onward,
      reads.holds.stays holds ?_ ?_, .inr here.nextCursor.symm⟩
    · rw [plans.cursors, placed, Finmap.lookup_insert]
      exact Option.some_ne_none _
    · rw [lastSeq, lastSeq, KeyedLog.reached_append]
      exact KeyedLog.le_reached_of_above ordered.above
  have unmoved (engine : Engine) (health : engine.health = ∅) :
      ∃ received', device.Went ⟨engine, device.db⟩ log scope received batch received' :=
    ⟨received, ⟨reads.holds, reads.read, health, reads.undiverged⟩, List.prefix_rfl,
      stays_same rfl, .inl rfl⟩
  cases applies with
  | refused e => exact unmoved device.engine reads.healthy
  | uncommitted e => exact unmoved _ reads.healthy
  | committed plan trusted plans =>
    refine committed trusted plans _ fun unrecorded => ?_
    obtain ⟨emitted, advanced⟩ := advance_eq device.engine batch plan
    rw [advanced, unrecorded]
    exact reads.healthy
  | unacknowledged e plan trusted plans =>
    exact committed trusted plans _ fun _ => reads.healthy

/-- Whatever storage does. -/
theorem Device.Reads.applyBatch (reads : device.Reads log scope received) (mirrors : device.Mirrors)
    (lands : ∀ change ∈ log, device.engine.lands change = true)
    (ascending : KeyedLog.Ascending (fun change : Change => change.seq.get) log)
    (expects : Expects log scope received batch) (faults : Faults) :
    ∃ received', device.Went (device.applyBatch faults batch).2 log scope received batch received' := by
  have applies := device.applyChanges_applies faults batch (!batch.hasMore) false
  have mirrors' := mirrors.refresh faults batch.scope
  obtain ⟨scopes, suspect, refreshed⟩ := device.refreshIfSuspect_eq faults batch.scope
  rw [refreshed] at applies mirrors'
  have reads' : Device.Reads { device with engine :=
      { device.engine with scopes := scopes, suspect := suspect } } log scope received :=
    ⟨reads.holds, reads.read, reads.healthy, reads.undiverged⟩
  obtain ⟨received', went⟩ := reads'.applies mirrors' lands ascending expects applies
  exact ⟨received', went.reads, went.forward, went.cursor, went.ends⟩

end Receiving

/-! ### What a device has asked for -/

section Registered

variable (entity : EntityName) (scope : ScopeId)

/-- What every device of a world registers. -/
abbrev Registry.reflecting : Registry := Sim.register Registry.new entity scope

theorem Registry.reflecting_entity :
    (Registry.reflecting entity scope).entity entity = some ⟨entity, scope, .ownerDraft, 1⟩ := by
  simp [Registry.reflecting, Sim.register, Registry.registerEntity, Registry.registerCommand,
    Registry.entity]

theorem Registry.reflecting_target :
    (Registry.reflecting entity scope).targetOf Sim.submitReflection = some entity := by
  simp [Registry.reflecting, Sim.register, Registry.registerCommand, Registry.targetOf]

theorem Registry.reflecting_class :
    (Registry.reflecting entity scope).classOf entity = some .ownerDraft := by
  rw [Registry.classOf, Registry.reflecting_entity]
  rfl

theorem Registry.reflecting_schema :
    (Registry.reflecting entity scope).schemaVersionOf entity = some 1 := by
  rw [Registry.schemaVersionOf, Registry.reflecting_entity]
  rfl

/-- A change of the one schema version there is needs no migration. -/
theorem Engine.lands_reflecting {engine : Engine} {seq : Seq} {entityId : EntityId}
    (registered : engine.registry = Registry.reflecting entity scope) :
    engine.lands (Sim.upsertAt seq entity entityId) = true := by
  have current : engine.migratedChange (Sim.upsertAt seq entity entityId) = .ok none := by
    have schema : (Registry.reflecting entity scope).schemaVersionOf
        (Sim.upsertAt seq entity entityId).entity = some 1 := Registry.reflecting_schema entity scope
    rw [Engine.migratedChange, registered, schema]
    rfl
  rw [Engine.lands, Engine.landing, current]
  rfl

end Registered

section Owing

variable {device : Device} {server : Sim.Server} {entity : EntityName} {scope : ScopeId}

/-- An entry of the outbox as the devices of a world queue it. -/
structure OutboxEntry.Reflects (entry : OutboxEntry) : Prop where
  command : Sim.Reflects entry.command
  schema : entry.schemaVersion = 1

/-- Every command a device took is queued as it was, or resolved as the server recorded it; and
what was superseded is kept as a draft. -/
structure Device.Owes (device : Device) (server : Sim.Server) (entity : EntityName) : Prop where
  queues : device.Queues
  ledger : device.db.Ledger
  authored : ∀ entry ∈ device.db.outbox, entry.Reflects
  answered : ∀ record ∈ device.db.resolved, ∃ known, server.recorded record.1 = some known ∧
    record.2 = resolutionOf known.result
  drafts : ∀ draft ∈ device.db.recovered, draft.2.1 = entity
  recovered : ∀ id, (id, Resolution.superseded) ∈ device.db.resolved →
    id ∈ device.db.recovered.map Prod.fst

/-- What one device's storage keeps from one moment to a later one. -/
structure Db.Later (scope : ScopeId) (earlier later : Db) : Prop where
  cursor : Sim.Invariants.CursorStays scope earlier later
  records : ∀ record ∈ earlier.resolved, record ∈ later.resolved
  unlost : Sim.Invariants.Unlost earlier later

theorem Db.Later.refl (db : Db) : db.Later scope db :=
  ⟨stays_same rfl, fun _ member => member, fun _ queued => .inl queued⟩

theorem Db.Later.trans {earlier middle later : Db} (first : earlier.Later scope middle)
    (second : middle.Later scope later) : earlier.Later scope later where
  cursor := by
    intro was before
    obtain ⟨now, between, low⟩ := first.cursor was before
    obtain ⟨next, after, high⟩ := second.cursor now between
    exact ⟨next, after, low.trans high⟩
  records record member := second.records record (first.records record member)
  unlost := by
    intro id queued
    rcases first.unlost id queued with queued | settled
    · exact second.unlost id queued
    · obtain ⟨record, member, same⟩ := List.mem_map.mp settled
      exact .inr (List.mem_map.mpr ⟨record, second.records record member, same⟩)

/-- Whatever is known stays known, so nothing queued is lost. -/
theorem Db.Ledger.later {before after : Db} {results : List CommandResult}
    {entering : Option OutboxEntry} (ledger : before.Ledger)
    (moves : before.Moves after results entering)
    (unused : ∀ entry ∈ entering, entry.id ∉ before.enqueued)
    (cursor : Sim.Invariants.CursorStays scope before after) : before.Later scope after where
  cursor := cursor
  records := moves.records
  unlost := fun id queued => ((ledger.moves moves unused).known id).mp
    (moves.enqueued ((ledger.known id).mpr (.inl queued)))

/-- What the server records later does not change what a device was told. -/
theorem Device.Owes.goesOn {later : Sim.Server} (owes : device.Owes server entity)
    (goes : Sim.Server.GoesOn scope server later) : device.Owes later entity :=
  { owes with
    answered := fun record member =>
      let ⟨known, found, same⟩ := owes.answered record member
      ⟨known, goes.recorded record.1 known found, same⟩ }

variable [Hashing]

/-- A call that answers nothing. -/
theorem Device.Owes.unanswered (owes : device.Owes server entity) (faults : Faults)
    (call : ClientCall) (unanswered : ∀ response, call ≠ .applyResults response)
    (entering : ∀ entry ∈ call.queues, entry.id ∉ device.db.enqueued ∧ entry.Reflects) :
    (device.call faults call).Owes server entity := by
  obtain ⟨moves, queues⟩ := device.call_moves owes.queues faults call
  have silent : call.answers = [] := by
    cases call with
    | applyResults response => exact absurd rfl (unanswered response)
    | _ => rfl
  rw [silent] at moves
  have records : ∀ record ∈ (device.call faults call).db.resolved, record ∈ device.db.resolved := by
    intro record member
    rcases moves.answered record member with before | ⟨result, none, -⟩
    · exact before
    · cases none
  have recovered := device.call_recovered faults call unanswered
  refine ⟨queues, owes.ledger.moves moves fun entry enters => (entering entry enters).1, ?_, ?_, ?_, ?_⟩
  · intro entry member
    rcases moves.outbox entry member with before | enters
    · exact owes.authored entry before
    · exact (entering entry enters).2
  · exact fun record member => owes.answered record (records record member)
  · rw [recovered]
    exact owes.drafts
  · rw [recovered]
    exact fun id member => owes.recovered id (records _ member)

omit [Hashing] in
/-- What answering a response saves are drafts of the one entity. -/
theorem Answering.Saves.ofEntity {answering : Answering} {outbox : List OutboxEntry}
    {heard : List CommandResult}
    (saves : answering.Saves (Registry.reflecting entity scope) outbox heard)
    (authored : ∀ entry ∈ outbox, entry.Reflects) :
    ∀ draft ∈ answering.ops.filterMap StorageOp.draft, draft.2.1 = entity := by
  intro draft member
  have own : draft ∈ draftsOf draft.1 (answering.ops.filterMap StorageOp.draft) :=
    List.mem_filter.mpr ⟨member, decide_eq_true rfl⟩
  by_cases known : draft.1 ∈ answering.ids
  · obtain ⟨⟨id, resolution⟩, recorded, same⟩ := List.mem_map.mp known
    obtain ⟨entry, result, queued, -, -, saved⟩ := saves.records id resolution recorded
    have same' : id = draft.1 := same
    rw [← same', saved] at own
    have name := (authored entry (List.mem_of_find?_eq_some queued)).command.name
    unfold savedDraft recoveredDraft at own
    rw [name, Registry.reflecting_target] at own
    split at own
    · simp only [Registry.reflecting_class, if_true] at own
      cases List.mem_singleton.mp own
      rfl
    · cases own
  · rw [saves.others draft.1 known] at own
    cases own

omit [Hashing] in
/-- A response of results the server has recorded. -/
theorem Device.Owes.applyResults (owes : device.Owes server entity)
    (registered : device.engine.registry = Registry.reflecting entity scope) (faults : Faults)
    {response : PushResponse} (recorded : ∀ result ∈ response.results, ∃ known,
      server.recorded result.id = some known ∧ known.result = result) :
    (device.applyResults faults response).2.Owes server entity := by
  obtain ⟨moves, queues⟩ := device.applyResults_moves owes.queues faults response
  have ledger := owes.ledger.moves moves nofun
  have authored : ∀ entry ∈ (device.applyResults faults response).2.db.outbox, entry.Reflects := by
    intro entry member
    rcases moves.outbox entry member with before | none
    · exact owes.authored entry before
    · cases none
  have answered : ∀ record ∈ (device.applyResults faults response).2.db.resolved, ∃ known,
      server.recorded record.1 = some known ∧ record.2 = resolutionOf known.result := by
    intro record member
    rcases moves.answered record member with before | ⟨result, heard, rfl⟩
    · exact owes.answered record before
    · obtain ⟨known, found, same⟩ := recorded result heard
      exact ⟨known, found, congrArg resolutionOf same.symm⟩
  have kept : (∀ draft ∈ (device.applyResults faults response).2.db.recovered, draft.2.1 = entity) ∧
      ∀ id, (id, Resolution.superseded) ∈ (device.applyResults faults response).2.db.resolved →
        id ∈ (device.applyResults faults response).2.db.recovered.map Prod.fst := by
    rcases device.applyResults_db owes.queues faults response with same | ⟨-, same⟩
    · rw [same]
      exact ⟨owes.drafts, owes.recovered⟩
    · have saves := answering_saves device.engine.registry device.db.outbox response.results
      have resolves := answering_resolves device.engine.registry device.db.outbox response.results
      rw [same, Db.staged_recovered, resolves.records, registered]
      rw [registered] at saves
      refine ⟨fun draft member => ?_, fun id member => ?_⟩
      · rcases List.mem_append.mp member with before | saved
        · exact owes.drafts draft before
        · exact saves.ofEntity owes.authored draft saved
      · rw [List.map_append]
        rcases List.mem_append.mp member with before | resolved
        · exact List.mem_append_left _ (owes.recovered id before)
        · obtain ⟨entry, result, queued, heard, superseded, saved⟩ := saves.records id _ resolved
          have name := (owes.authored entry (List.mem_of_find?_eq_some queued)).command.name
          have draft : ((Registry.reflecting entity scope).draftOf entry.command).isSome := by
            simp [Registry.draftOf, name, Registry.reflecting_target, Registry.reflecting_class]
          have status : result.status = .superseded := by
            unfold resolutionOf at superseded
            split at superseded
            · cases superseded
            · assumption
            · cases superseded
          obtain ⟨saved', kept⟩ := savedDraft_superseded status draft
          have own : (result.id, saved', entry.command.payload) ∈ draftsOf id _ :=
            saved ▸ kept ▸ List.mem_singleton_self _
          refine List.mem_append_right _ (List.mem_map.mpr ⟨_, (List.mem_filter.mp own).1, ?_⟩)
          exact of_decide_eq_true (List.mem_filter.mp own).2
  exact ⟨queues, ledger, authored, answered, kept.1, kept.2⟩

end Owing

end CredSync
