import CredSync.Core.Memory

/-! The outbox as a ledger: over every run of calls and restarts, whatever the
server answers and whatever storage does, a queued command is either still
stored in the outbox or has one stored resolution, for good. -/

namespace CredSync

/-! ### What one response resolves -/

def Answering.ids (answering : Answering) : List CommandId := answering.resolutions.map Prod.fst

/-- What answering a response has built: each command resolved was queued, is
resolved once, and leaves the outbox in the same transaction. -/
structure Answering.Resolves (answering : Answering) (outbox : List OutboxEntry) : Prop where
  once : answering.ids.Nodup
  queued : ∀ id ∈ answering.ids, ∃ entry ∈ outbox, entry.id = id
  marked : ∀ id ∈ answering.ids, id ∈ answering.answered
  removes : ∀ db : Db, (db.staged answering.ops).outbox =
    db.outbox.filter fun entry => entry.id ∉ answering.ids
  records : ∀ db : Db, (db.staged answering.ops).resolved = db.resolved ++ answering.resolutions
  keeps : ∀ db : Db, (db.staged answering.ops).enqueued = db.enqueued

private theorem staged_recoveredDraft (db : Db) (registry : Registry) (entry : OutboxEntry)
    (result : CommandResult) : ∃ recovered,
      db.staged (recoveredDraft registry entry result) = { db with recovered := recovered } := by
  unfold recoveredDraft
  split
  · split
    · split <;> exact ⟨_, rfl⟩
    · exact ⟨_, rfl⟩
  · exact ⟨_, rfl⟩

theorem Answering.Resolves.next (resolves : answering.Resolves outbox) (registry : Registry)
    (result : CommandResult) : (answerOne registry outbox answering result).Resolves outbox := by
  unfold answerOne
  cases found : outbox.find? fun entry => entry.id = result.id with
  | none =>
    exact ⟨resolves.once, resolves.queued, resolves.marked, resolves.removes, resolves.records,
      resolves.keeps⟩
  | some entry =>
    simp only
    split
    · exact ⟨resolves.once, resolves.queued, resolves.marked, resolves.removes, resolves.records,
        resolves.keeps⟩
    · rename_i fresh
      have unanswered : result.id ∉ answering.ids := fun member => fresh (resolves.marked _ member)
      have staged : ∀ db : Db, ∃ recovered, db.staged (answering.ops ++
          recoveredDraft registry entry result ++
            [.resolveCommand result.id (resolutionOf result)]) =
          Db.apply { db.staged answering.ops with recovered := recovered }
            (.resolveCommand result.id (resolutionOf result)) := by
        intro db
        obtain ⟨recovered, drafted⟩ :=
          staged_recoveredDraft (db.staged answering.ops) registry entry result
        exact ⟨recovered, by rw [Db.staged_append, Db.staged_append, drafted]; rfl⟩
      have ids : ∀ id, id ∈ (answering.resolutions ++ [(result.id, resolutionOf result)]).map
          Prod.fst ↔ id ∈ answering.ids ∨ id = result.id := by
        simp [Answering.ids]
      refine ⟨?_, fun id member => ?_, fun id member => ?_, fun db => ?_, fun db => ?_, fun db => ?_⟩
      · rw [Answering.ids, List.map_append]
        refine List.nodup_append.mpr ⟨resolves.once, List.nodup_singleton _, ?_⟩
        intro id member other last same
        rw [same, List.mem_singleton.mp last] at member
        exact unanswered member
      · rcases (ids id).mp member with member | rfl
        · exact resolves.queued id member
        · have matched := List.find?_some found
          exact ⟨entry, List.mem_of_find?_eq_some found, of_decide_eq_true matched⟩
      · rcases (ids id).mp member with member | rfl
        · exact Finset.mem_insert_of_mem (resolves.marked id member)
        · exact Finset.mem_insert_self _ _
      · obtain ⟨recovered, done⟩ := staged db
        rw [done]
        change (db.staged answering.ops).outbox.filter _ = _
        rw [resolves.removes, List.filter_filter]
        apply List.filter_congr
        intro other _
        rw [Bool.eq_iff_iff, Bool.and_eq_true, decide_eq_true_iff, decide_eq_true_iff,
          decide_eq_true_iff]
        exact and_comm.trans (not_or.symm.trans (not_congr (ids other.id)).symm)
      · obtain ⟨recovered, done⟩ := staged db
        rw [done]
        change (db.staged answering.ops).resolved ++ _ = _
        rw [resolves.records, List.append_assoc]
      · obtain ⟨recovered, done⟩ := staged db
        rw [done]
        exact resolves.keeps db

theorem answering_resolves (registry : Registry) (outbox : List OutboxEntry)
    (results : List CommandResult) :
    (results.foldl (answerOne registry outbox) {}).Resolves outbox := by
  have start : Answering.Resolves {} outbox :=
    { once := List.nodup_nil
      queued := fun id member => nomatch member
      marked := fun id member => nomatch member
      removes := fun db => (List.filter_eq_self.mpr fun entry _ => rfl).symm
      records := fun db => (List.append_nil _).symm
      keeps := fun db => rfl }
  generalize ({} : Answering) = answering at start
  induction results generalizing answering with
  | nil => exact start
  | cons result rest ih => exact ih _ (start.next registry result)

/-- Each resolution is that of one of the results. -/
def Answering.Answers (answering : Answering) (results : List CommandResult) : Prop :=
  ∀ record ∈ answering.resolutions, ∃ result ∈ results, record = (result.id, resolutionOf result)

theorem answering_answers (registry : Registry) (outbox : List OutboxEntry)
    (results : List CommandResult) :
    (results.foldl (answerOne registry outbox) {}).Answers results := by
  have fold : ∀ (rest : List CommandResult) (answering : Answering),
      (∀ result ∈ rest, result ∈ results) → answering.Answers results →
      (rest.foldl (answerOne registry outbox) answering).Answers results := by
    intro rest
    induction rest with
    | nil => exact fun _ _ answers => answers
    | cons result rest ih =>
      intro answering inside answers
      refine ih _ (fun later member => inside later (List.mem_cons_of_mem _ member)) ?_
      unfold answerOne
      split
      · exact answers
      · split
        · exact answers
        · intro record member
          rcases List.mem_append.mp member with member | member
          · exact answers record member
          · exact ⟨result, inside result List.mem_cons_self, List.mem_singleton.mp member⟩
  exact fold results {} (fun _ member => member) fun _ member => nomatch member

/-- One `retain` for each resolution is one filter. -/
theorem foldl_retain (resolutions : List (CommandId × Resolution)) (outbox : List OutboxEntry) :
    resolutions.foldl (fun outbox resolution => outbox.filter fun entry => entry.id ≠ resolution.1)
      outbox = outbox.filter fun entry => entry.id ∉ resolutions.map Prod.fst := by
  induction resolutions generalizing outbox with
  | nil => exact (List.filter_eq_self.mpr fun entry _ => by simp).symm
  | cons resolution rest ih =>
    rw [List.foldl_cons, ih, List.filter_filter]
    apply List.filter_congr
    intro entry _
    simp only [List.map_cons, List.mem_cons, not_or, Bool.decide_and, ne_eq, Bool.and_comm]

/-! ### What one call does to the ledger -/

/-- The command a call queues. -/
def ClientCall.queues : ClientCall → Option OutboxEntry
  | .enqueue entry => some entry
  | _ => none

/-- The results a call hands to the engine. -/
def ClientCall.answers : ClientCall → List CommandResult
  | .applyResults response => response.results
  | _ => []

/-- What a call may do to the stored outbox, its resolutions and the commands
known to it. -/
inductive Db.Moves (before after : Db) (results : List CommandResult) : Option OutboxEntry → Prop where
  | kept (outbox : after.outbox = before.outbox) (resolved : after.resolved = before.resolved)
      (enqueued : after.enqueued = before.enqueued) : Moves before after results queued
  | queued (entry : OutboxEntry) (outbox : after.outbox = before.outbox ++ [entry])
      (resolved : after.resolved = before.resolved)
      (enqueued : after.enqueued = insert entry.id before.enqueued) :
      Moves before after results (some entry)
  | resolved (answering : Answering) (resolves : answering.Resolves before.outbox)
      (answers : answering.Answers results) (same : after = before.staged answering.ops) :
      Moves before after results none

/-- Memory holds the stored outbox unless it knows that it may not. -/
def Device.Queues (device : Device) : Prop :=
  device.engine.outboxSuspect = false → device.engine.outbox = device.db.outbox

variable {device after : Device}

/-- Re-reading the outbox either fails and changes nothing, or makes memory exact. -/
theorem Device.refreshOutboxIfSuspect_spec (device : Device) (faults : Faults)
    (queues : device.Queues) : (device.refreshOutboxIfSuspect faults).2.Queues ∧
      (device.refreshOutboxIfSuspect faults).2.db = device.db ∧
      ∀ fresh, device.refreshOutboxIfSuspect faults = (.ok (), fresh) →
        fresh.engine.outbox = fresh.db.outbox := by
  unfold refreshOutboxIfSuspect
  split
  · cases read : device.db.readOutbox faults with
    | error e => exact ⟨queues, rfl, fun fresh impossible => by cases impossible⟩
    | ok stored =>
      have found : device.db.outbox = stored := by
        unfold Db.readOutbox at read
        split at read
        · cases read
        · exact Except.ok.inj read
      refine ⟨fun _ => found.symm, rfl, fun fresh same => ?_⟩
      cases same
      exact found.symm
  · rename_i trusted
    have current := queues (Bool.eq_false_iff.mpr trusted)
    refine ⟨queues, rfl, fun fresh same => ?_⟩
    cases same
    exact current

/-- A push asks with what a fill takes of the stored outbox. -/
theorem Device.buildPush_request (queues : device.Queues) {faults : Faults}
    {compressedLen : Bytes → Nat} {protocol : ProtocolVersion} {budgetBytes : Nat}
    {request : PushRequest}
    (asked : (device.buildPush faults compressedLen protocol budgetBytes).1 = .ok (some request)) :
    request.commands = (fillPush device.engine.registry device.engine.migrations compressedLen
      budgetBytes device.db.outbox {}).chosen := by
  obtain ⟨-, stored, reread⟩ := device.refreshOutboxIfSuspect_spec faults queues
  have same := device.refreshOutboxIfSuspect_same faults
  unfold Device.buildPush at asked
  generalize device.refreshOutboxIfSuspect faults = outcome at stored reread same asked
  obtain ⟨_ | _, fresh⟩ := outcome
  · cases asked
  · have current := reread fresh rfl
    simp only at stored same asked
    split at asked
    · cases asked
    · split at asked
      · cases asked
      · cases asked
        rw [← same.registry, ← same.migrations, ← stored, ← current]

theorem Device.enqueue_moves (queues : device.Queues) (faults : Faults) (entry : OutboxEntry) :
    device.db.Moves (device.enqueue faults entry).2.db [] (some entry) ∧
      (device.enqueue faults entry).2.Queues := by
  unfold Device.enqueue
  cases device.engine.registry.checkCommand entry.command with
  | error e => exact ⟨.kept rfl rfl rfl, queues⟩
  | ok entity =>
    obtain ⟨outcome, done⟩ | ⟨e, lost | done⟩ := Db.transact_cases faults device.db
      [.enqueueCommand entry.command entry.schemaVersion]
    · simp only [done]
      refine ⟨.queued entry rfl rfl rfl, fun trusted => ?_⟩
      exact congrArg (· ++ [entry]) (queues trusted)
    · simp only [lost]
      exact ⟨.kept rfl rfl rfl, fun impossible => nomatch impossible⟩
    · simp only [done]
      exact ⟨.queued entry rfl rfl rfl, fun impossible => nomatch impossible⟩

theorem Device.applyResults_moves (queues : device.Queues) (faults : Faults)
    (response : PushResponse) :
    device.db.Moves (device.applyResults faults response).2.db response.results none ∧
      (device.applyResults faults response).2.Queues := by
  obtain ⟨still, same, reread⟩ := device.refreshOutboxIfSuspect_spec faults queues
  unfold Device.applyResults
  generalize device.refreshOutboxIfSuspect faults = outcome at still same reread ⊢
  obtain ⟨_ | _, fresh⟩ := outcome
  · exact ⟨.kept (by rw [same]) (by rw [same]) (by rw [same]), still⟩
  · have current := reread fresh rfl
    have resolves := answering_resolves fresh.engine.registry fresh.engine.outbox response.results
    have answers := answering_answers fresh.engine.registry fresh.engine.outbox response.results
    rw [current] at resolves answers
    simp only at same still ⊢
    rw [current]
    generalize response.results.foldl (answerOne fresh.engine.registry fresh.db.outbox) {} =
      answering at resolves answers ⊢
    rw [← same]
    split
    · exact ⟨.kept rfl rfl rfl, still⟩
    · obtain ⟨outcome, done⟩ | ⟨e, lost | done⟩ :=
        Db.transact_cases faults fresh.db answering.ops
      · simp only [done]
        refine ⟨.resolved answering resolves answers rfl, fun _ => ?_⟩
        exact (foldl_retain _ _).trans (resolves.removes fresh.db).symm
      · simp only [lost]
        exact ⟨.kept rfl rfl rfl, fun impossible => nomatch impossible⟩
      · simp only [done]
        exact ⟨.resolved answering resolves answers rfl, fun impossible => nomatch impossible⟩

theorem Device.applyChanges_moves [Hashing] (queues : device.Queues) (faults : Faults)
    (batch : Batch) (compareDigest rebuilding : Bool) :
    device.db.Moves (device.applyChanges faults batch compareDigest rebuilding).2.db [] none ∧
      (device.applyChanges faults batch compareDigest rebuilding).2.Queues := by
  have ends := device.applyChanges_applies faults batch compareDigest rebuilding
  obtain ⟨scopes, suspect, refreshed⟩ := device.refreshIfSuspect_eq faults batch.scope
  rw [refreshed] at ends
  generalize device.applyChanges faults batch compareDigest rebuilding = outcome at ends ⊢
  cases ends with
  | refused e => exact ⟨.kept rfl rfl rfl, queues⟩
  | committed plan _ plans =>
    obtain ⟨outbox, resolved, enqueued⟩ := plans.outbox
    obtain ⟨emitted, moved⟩ := Device.advance_eq
      { device.engine with scopes := scopes, suspect := suspect } batch plan
    refine ⟨.kept outbox resolved enqueued, ?_⟩
    intro trusted
    simp only [moved] at trusted ⊢
    exact (queues trusted).trans outbox.symm
  | unacknowledged e plan _ plans =>
    obtain ⟨outbox, resolved, enqueued⟩ := plans.outbox
    exact ⟨.kept outbox resolved enqueued, fun impossible => nomatch impossible⟩
  | uncommitted e => exact ⟨.kept rfl rfl rfl, fun impossible => nomatch impossible⟩

theorem Device.buildPush_moves (queues : device.Queues) (faults : Faults)
    (compressedLen : Bytes → Nat) (protocol : ProtocolVersion) (budgetBytes : Nat) :
    device.db.Moves (device.buildPush faults compressedLen protocol budgetBytes).2.db [] none ∧
      (device.buildPush faults compressedLen protocol budgetBytes).2.Queues := by
  obtain ⟨still, same, -⟩ := device.refreshOutboxIfSuspect_spec faults queues
  unfold Device.buildPush
  generalize device.refreshOutboxIfSuspect faults = outcome at still same ⊢
  have kept : device.db.Moves outcome.2.db [] none :=
    .kept (by rw [same]) (by rw [same]) (by rw [same])
  obtain ⟨_ | _, fresh⟩ := outcome
  · exact ⟨kept, still⟩
  · simp only
    split
    · exact ⟨kept, still⟩
    · split
      · exact ⟨kept, still⟩
      · obtain ⟨effects, emitted⟩ := foldl_held (fillPush fresh.engine.registry
          fresh.engine.migrations compressedLen budgetBytes fresh.engine.outbox {}).held fresh.engine
        simp only [emitted]
        exact ⟨kept, still⟩

theorem Device.reloadScope_moves (queues : device.Queues) (faults : Faults) (scope : ScopeId) :
    device.db.Moves (device.reloadScope faults scope).2.db [] none ∧
      (device.reloadScope faults scope).2.Queues := by
  obtain ⟨scopes, suspect, refreshed⟩ := device.refreshIfSuspect_eq faults scope
  unfold Device.reloadScope
  generalize device.refreshIfSuspect faults scope = outcome at refreshed ⊢
  obtain ⟨_ | _, fresh⟩ := outcome
  · simp only at refreshed ⊢
    rw [refreshed]
    exact ⟨.kept rfl rfl rfl, queues⟩
  · simp only at refreshed ⊢
    have before : fresh.Queues := by
      rw [refreshed]
      exact queues
    obtain ⟨still, same, -⟩ := fresh.refreshOutboxIfSuspect_spec faults before
    generalize fresh.refreshOutboxIfSuspect faults = outcome at still same ⊢
    have kept : device.db.Moves outcome.2.db [] none :=
      .kept (by rw [same, refreshed]) (by rw [same, refreshed]) (by rw [same, refreshed])
    obtain ⟨_ | _, final⟩ := outcome <;> exact ⟨kept, still⟩

/-- Every call either leaves the ledger alone, queues its one command, or
resolves commands that were queued; and memory follows. -/
theorem Device.call_moves [Hashing] (queues : device.Queues) (faults : Faults) (call : ClientCall) :
    device.db.Moves (device.call faults call).db call.answers call.queues ∧
      (device.call faults call).Queues := by
  cases call with
  | applyBatch batch => exact Device.applyChanges_moves queues faults batch _ _
  | applyBootstrap response => exact Device.applyChanges_moves queues faults response.toBatch _ _
  | beginRebootstrap scope =>
    change device.db.Moves (device.beginRebootstrap faults scope).2.db [] none ∧
      (device.beginRebootstrap faults scope).2.Queues
    unfold Device.beginRebootstrap
    obtain ⟨outcome, done⟩ | ⟨e, lost | done⟩ := Db.transact_cases faults device.db
      (device.engine.registry.rebootstrapOps scope)
    · simp only [done]
      exact ⟨.kept rfl rfl rfl, queues⟩
    · simp only [lost]
      exact ⟨.kept rfl rfl rfl, fun impossible => nomatch impossible⟩
    · simp only [done]
      exact ⟨.kept rfl rfl rfl, fun impossible => nomatch impossible⟩
  | reloadScope scope => exact Device.reloadScope_moves queues faults scope
  | clearScopeHealth scope =>
    change device.db.Moves (device.clearScopeHealth faults scope).2.db [] none ∧
      (device.clearScopeHealth faults scope).2.Queues
    unfold Device.clearScopeHealth
    obtain ⟨outcome, done⟩ | ⟨e, lost | done⟩ := Db.transact_cases faults device.db
      [.recordDivergence scope 0 false]
    · simp only [done]
      exact ⟨.kept rfl rfl rfl, queues⟩
    · simp only [lost]
      exact ⟨.kept rfl rfl rfl, queues⟩
    · simp only [done]
      exact ⟨.kept rfl rfl rfl, queues⟩
  | enqueue entry => exact Device.enqueue_moves queues faults entry
  | buildPush compressedLen protocol budgetBytes =>
    exact Device.buildPush_moves queues faults compressedLen protocol budgetBytes
  | applyResults response => exact Device.applyResults_moves queues faults response

/-! ### The ledger -/

/-- Every known command is in exactly one of the outbox and the resolutions,
once. -/
structure Db.Ledger (db : Db) : Prop where
  queuedOnce : (db.outbox.map OutboxEntry.id).Nodup
  resolvedOnce : (db.resolved.map Prod.fst).Nodup
  apart : ∀ id ∈ db.outbox.map OutboxEntry.id, id ∉ db.resolved.map Prod.fst
  known : ∀ id, id ∈ db.enqueued ↔
    id ∈ db.outbox.map OutboxEntry.id ∨ id ∈ db.resolved.map Prod.fst

theorem Db.Ledger.moves {before after : Db} (ledger : before.Ledger)
    (moves : before.Moves after results entering)
    (unused : ∀ entry ∈ entering, entry.id ∉ before.enqueued) : after.Ledger := by
  cases moves with
  | kept outbox resolved enqueued =>
    exact ⟨by rw [outbox]; exact ledger.queuedOnce, by rw [resolved]; exact ledger.resolvedOnce,
      by rw [outbox, resolved]; exact ledger.apart,
      by rw [outbox, resolved, enqueued]; exact ledger.known⟩
  | queued entry outbox resolved enqueued =>
    have new := unused entry rfl
    have absent := mt (ledger.known entry.id).mpr new
    rw [not_or] at absent
    refine ⟨?_, by rw [resolved]; exact ledger.resolvedOnce, ?_, fun id => ?_⟩
    · rw [outbox, List.map_append]
      refine List.nodup_append.mpr ⟨ledger.queuedOnce, List.nodup_singleton _, ?_⟩
      intro id member other last same
      rw [same, List.mem_singleton.mp last] at member
      exact absent.1 member
    · rw [outbox, resolved, List.map_append]
      intro id member
      rcases List.mem_append.mp member with member | member
      · exact ledger.apart id member
      · rw [List.mem_singleton.mp member]
        exact absent.2
    · rw [outbox, resolved, enqueued, Finset.mem_insert, ledger.known, List.map_append,
        List.mem_append, List.map_singleton, List.mem_singleton]
      tauto
  | resolved answering resolves _ same =>
    have outbox := resolves.removes before
    have records := resolves.records before
    rw [← same] at outbox records
    have queuedIds : ∀ id, id ∈ after.outbox.map OutboxEntry.id ↔
        id ∈ before.outbox.map OutboxEntry.id ∧ id ∉ answering.ids := by
      intro id
      rw [outbox]
      simp only [List.mem_map, List.mem_filter, decide_eq_true_eq]
      constructor
      · rintro ⟨entry, ⟨member, left⟩, rfl⟩
        exact ⟨⟨entry, member, rfl⟩, left⟩
      · rintro ⟨⟨entry, member, rfl⟩, left⟩
        exact ⟨entry, ⟨member, left⟩, rfl⟩
    have resolvedIds : ∀ id, id ∈ after.resolved.map Prod.fst ↔
        id ∈ before.resolved.map Prod.fst ∨ id ∈ answering.ids := by
      intro id
      rw [records, List.map_append, List.mem_append]
      rfl
    have wasQueued : ∀ id ∈ answering.ids, id ∈ before.outbox.map OutboxEntry.id := by
      intro id member
      obtain ⟨entry, inside, named⟩ := resolves.queued id member
      exact List.mem_map.mpr ⟨entry, inside, named⟩
    refine ⟨?_, ?_, fun id member => ?_, fun id => ?_⟩
    · rw [outbox]
      exact ledger.queuedOnce.sublist (List.filter_sublist.map _)
    · rw [records, List.map_append]
      refine List.nodup_append.mpr ⟨ledger.resolvedOnce, resolves.once, ?_⟩
      intro id member other answered same
      rw [same] at member
      exact ledger.apart other (wasQueued other answered) member
    · obtain ⟨inside, left⟩ := (queuedIds id).mp member
      rw [resolvedIds, not_or]
      exact ⟨ledger.apart id inside, left⟩
    · have enqueued := resolves.keeps before
      rw [← same] at enqueued
      rw [enqueued, queuedIds, resolvedIds, ledger.known]
      have := wasQueued id
      tauto

theorem Db.Moves.records {before after : Db} (moves : before.Moves after results entering) :
    ∀ record ∈ before.resolved, record ∈ after.resolved := by
  intro record member
  cases moves with
  | kept _ resolved _ => rwa [resolved]
  | queued _ _ resolved _ => rwa [resolved]
  | resolved answering resolves _ same =>
    rw [same, resolves.records]
    exact List.mem_append_left _ member

/-- What is queued after a call was queued before it, or is the one it queues. -/
theorem Db.Moves.outbox {before after : Db} (moves : before.Moves after results entering) :
    ∀ entry ∈ after.outbox, entry ∈ before.outbox ∨ entry ∈ entering := by
  intro entry member
  cases moves with
  | kept outbox _ _ => exact .inl (outbox ▸ member)
  | queued queued outbox _ _ =>
    rw [outbox] at member
    exact (List.mem_append.mp member).imp_right fun last => by
      rw [List.mem_singleton.mp last]
      rfl
  | resolved answering resolves _ same =>
    rw [same, resolves.removes] at member
    exact .inl (List.mem_filter.mp member).1

theorem Db.Moves.enqueued {before after : Db} (moves : before.Moves after results entering) :
    before.enqueued ⊆ after.enqueued := by
  cases moves with
  | kept _ _ enqueued => exact enqueued.ge
  | queued entry _ _ enqueued =>
    rw [enqueued]
    exact Finset.subset_insert entry.id before.enqueued
  | resolved answering resolves _ same =>
    rw [same, resolves.keeps]

/-- A new resolution is that of a result the call was handed. -/
theorem Db.Moves.answered {before after : Db} (moves : before.Moves after results entering) :
    ∀ record ∈ after.resolved, record ∈ before.resolved ∨
      ∃ result ∈ results, record = (result.id, resolutionOf result) := by
  intro record member
  cases moves with
  | kept _ resolved _ => exact .inl (resolved ▸ member)
  | queued _ _ resolved _ => exact .inl (resolved ▸ member)
  | resolved answering resolves answers same =>
    rw [same, resolves.records] at member
    exact (List.mem_append.mp member).imp_right (answers record)

/-! ### Runs -/

/-- A call into the engine, or a restart of the app over the same storage. -/
inductive ClientEvent where
  | call (faults : Faults) (call : ClientCall)
  | restart (registry : Registry) (migrations : Migrations) (scopes : List ScopeId)

/-- The command an event queues. -/
def ClientEvent.queues : ClientEvent → Option CommandId
  | .call _ made => made.queues.map OutboxEntry.id
  | .restart .. => none

/-- The results an event hands to the engine. -/
def ClientEvent.answers : ClientEvent → List CommandResult
  | .call _ made => made.answers
  | .restart .. => []

def Device.react [Hashing] (device : Device) : ClientEvent → Device
  | .call faults call => device.call faults call
  | .restart registry migrations scopes => Device.restart registry migrations scopes device.db

def Device.Reacts [Hashing] (before : Device) (event : ClientEvent) (after : Device) : Prop :=
  after = before.react event

/-- What every event keeps, given the commands queued so far. -/
structure Device.Keeps (device : Device) (past : List ClientEvent) : Prop where
  queues : device.Queues
  ledger : device.db.Ledger
  named : ∀ id ∈ device.db.enqueued, id ∈ past.filterMap ClientEvent.queues

theorem Device.react_moves [Hashing] (queues : device.Queues) (event : ClientEvent) :
    (∃ entering, device.db.Moves (device.react event).db event.answers entering ∧
      entering.map OutboxEntry.id = event.queues) ∧ (device.react event).Queues := by
  cases event with
  | call faults call =>
    obtain ⟨moves, still⟩ := Device.call_moves queues faults call
    exact ⟨⟨call.queues, moves, rfl⟩, still⟩
  | restart registry migrations scopes =>
    obtain ⟨restored, health, started⟩ :=
      Device.restart_engine registry migrations scopes device.db
    refine ⟨⟨none, .kept rfl rfl rfl, rfl⟩, fun _ => ?_⟩
    change (Device.restart registry migrations scopes device.db).engine.outbox = device.db.outbox
    rw [started]

theorem Device.Keeps.react [Hashing] (keeps : device.Keeps past) (event : ClientEvent)
    (unused : ∀ id ∈ event.queues, id ∉ past.filterMap ClientEvent.queues) :
    (device.react event).Keeps (past ++ [event]) := by
  obtain ⟨⟨entering, moves, same⟩, still⟩ := Device.react_moves keeps.queues event
  have new : ∀ entry ∈ entering, entry.id ∉ device.db.enqueued := by
    intro entry member known
    refine unused entry.id ?_ (keeps.named _ known)
    rw [← same, Option.mem_def.mp member]
    rfl
  refine ⟨still, keeps.ledger.moves moves new, fun id member => ?_⟩
  rw [List.filterMap_append, List.mem_append]
  cases moves with
  | kept _ _ enqueued =>
    rw [enqueued] at member
    exact .inl (keeps.named id member)
  | queued entry _ _ enqueued =>
    rw [enqueued] at member
    rcases Finset.mem_insert.mp member with rfl | member
    · exact .inr (by simp [← same])
    · exact .inl (keeps.named id member)
  | resolved answering resolves _ done =>
    rw [done, resolves.keeps] at member
    exact .inl (keeps.named id member)

/-- Where no command is queued twice, what an event queues was not queued before. -/
theorem unqueued_of_once {past events : List ClientEvent} {event : ClientEvent}
    (once : ((past ++ event :: events).filterMap ClientEvent.queues).Nodup) :
    ∀ id ∈ event.queues, id ∉ past.filterMap ClientEvent.queues := by
  intro id member earlier
  rw [List.filterMap_append, List.nodup_append] at once
  have queued : id ∈ (event :: events).filterMap ClientEvent.queues :=
    List.mem_filterMap.mpr ⟨event, List.mem_cons_self, member⟩
  exact once.2.2 id earlier id queued rfl

theorem Device.Keeps.run [Hashing] (run : Transition.Run Device.Reacts device events after)
    (keeps : device.Keeps past)
    (once : ((past ++ events).filterMap ClientEvent.queues).Nodup) :
    after.Keeps (past ++ events) := by
  induction run generalizing past with
  | done => simpa using keeps
  | @next before event middle events final first rest ih =>
    have unused := unqueued_of_once once
    have split : past ++ event :: events = (past ++ [event]) ++ events := by simp
    rw [split] at once ⊢
    exact ih (first ▸ keeps.react event unused) once

theorem Device.run_records [Hashing] (run : Transition.Run Device.Reacts device events after)
    (queues : device.Queues) : ∀ record ∈ device.db.resolved, record ∈ after.db.resolved := by
  have steps : ∀ before event middle, Device.Queues before → Device.Reacts before event middle →
      ∀ record ∈ before.db.resolved, record ∈ middle.db.resolved := by
    rintro before event middle queues rfl
    obtain ⟨⟨entering, moves, _⟩, _⟩ := Device.react_moves queues event
    exact moves.records
  have kept : ∀ before event middle, Device.Queues before → Device.Reacts before event middle →
      Device.Queues middle := by
    rintro before event middle queues rfl
    exact (Device.react_moves queues event).2
  exact run.relates (fun _ _ member => member)
    (fun _ _ _ first second record member => second record (first record member)) kept steps queues

/-- A first start has nothing queued and nothing resolved. -/
theorem Device.restart_keeps (registry : Registry) (migrations : Migrations)
    (scopes : List ScopeId) : (Device.restart registry migrations scopes {}).Keeps [] := by
  obtain ⟨restored, health, started⟩ := Device.restart_engine registry migrations scopes {}
  refine ⟨fun _ => by rw [started]; rfl, ⟨List.nodup_nil, List.nodup_nil, ?_, fun id => ?_⟩, ?_⟩
  · exact fun id member => nomatch member
  · exact ⟨fun member => absurd member (Finset.notMem_empty id), fun member => by
      rcases member with member | member <;> cases member⟩
  · exact fun id member => absurd member (Finset.notMem_empty id)

/-- Whatever storage does to each transaction and whatever the server answers,
over any run of calls and restarts in which no command is queued twice: each
command whose write committed is in exactly one of the stored outbox and the
stored resolutions, it has one resolution at most, nothing else has any, and a
resolution once stored stays as it is. -/
theorem outbox_resolves_once [Hashing] (registry : Registry) (migrations : Migrations)
    (scopes : List ScopeId) (earlier later : List ClientEvent) (middle device : Device)
    (before : Transition.Run Device.Reacts (Device.restart registry migrations scopes {})
      earlier middle)
    (after : Transition.Run Device.Reacts middle later device)
    (once : ((earlier ++ later).filterMap ClientEvent.queues).Nodup) :
    (∀ id ∈ device.db.enqueued,
      Xor (∃ entry ∈ device.db.outbox, entry.id = id) (∃ r, (id, r) ∈ device.db.resolved)) ∧
    (device.db.resolved.map Prod.fst).Nodup ∧
    (∀ id r, (id, r) ∈ device.db.resolved → id ∈ device.db.enqueued ∧
      id ∈ (earlier ++ later).filterMap ClientEvent.queues) ∧
    ∀ record ∈ middle.db.resolved, record ∈ device.db.resolved := by
  have start := Device.restart_keeps registry migrations scopes
  have half : (earlier.filterMap ClientEvent.queues).Nodup := by
    rw [List.filterMap_append] at once
    exact (List.nodup_append.mp once).1
  have reached := start.run before half
  have keeps := reached.run after once
  have known := keeps.ledger.known
  refine ⟨fun id member => ?_, keeps.ledger.resolvedOnce, fun id r member => ?_,
    Device.run_records after reached.queues⟩
  · have queued : (∃ entry ∈ device.db.outbox, entry.id = id) ↔
        id ∈ device.db.outbox.map OutboxEntry.id := List.mem_map.symm
    have resolved : (∃ r, (id, r) ∈ device.db.resolved) ↔ id ∈ device.db.resolved.map Prod.fst := by
      simp
    rw [queued, resolved]
    rcases (known id).mp member with inside | inside
    · exact .inl ⟨inside, keeps.ledger.apart id inside⟩
    · exact .inr ⟨inside, fun outbox => keeps.ledger.apart id outbox inside⟩
  · have inside : id ∈ device.db.enqueued :=
      (known id).mpr (.inr (List.mem_map.mpr ⟨(id, r), member, rfl⟩))
    exact ⟨inside, keeps.named id inside⟩

namespace Sample

attribute [local instance] noteHashes

def editNote : CommandName := ⟨ascii "edit_note", by decide⟩

/-- One edit, authored under the first schema version. -/
def edit : OutboxEntry where
  command :=
    { id := firstCommand
      name := editNote
      scope := scope
      payload := body
      clientTs := 0
      checksum := hexU128 0 }
  schemaVersion := schema

/-- The app at some schema version of its notes. -/
def app (version : SchemaVersion) : Registry :=
  (Registry.new.registerEntity ⟨note, scope, .ownerDraft, version⟩).registerCommand editNote note

/-- The enqueue commits and is reported lost, so the command is pushed after a reload. -/
def queuedInSilence : List ClientEvent :=
  [.call { verdict := .commitThenLoseAck } (.enqueue edit),
    .call .none (.buildPush List.length 1 4096)]

/-- Its rejection is lost before it commits; after a restart it is applied, then
rejected again. -/
def answeredTwice : List ClientEvent :=
  let answer (status : Status) (serverSeq : Option Seq) : PushResponse :=
    ⟨1, [⟨edit.id, status, none, serverSeq⟩]⟩
  [.call { verdict := .failBeforeCommit } (.applyResults (answer .rejected none)),
    .restart (app schema) Migrations.new [scope],
    .call .none (.applyResults (answer .applied (some 1))),
    .call .none (.applyResults (answer .rejected none))]

theorem answeredTwice_resolvesOnce : ∃ middle device,
    Transition.Run Device.Reacts (Device.restart (app schema) Migrations.new [scope] {})
      queuedInSilence middle ∧
    Transition.Run Device.Reacts middle answeredTwice device ∧
    device.db.outbox = [] ∧ (device.db.resolved.map Prod.fst).Nodup ∧
    ∃ r, (edit.id, r) ∈ device.db.resolved := by
  let run := Transition.follow (fun _ _ => true) fun device event => some (Device.react device event)
  have followed : (run (Device.restart (app schema) Migrations.new [scope] {}) queuedInSilence).any
      (fun middle => (run middle answeredTwice).any fun device =>
        device.db.outbox.isEmpty && decide (edit.id ∈ device.db.enqueued)) = true := by
    decide +kernel
  have taken : ∀ before label after, true = true → some (Device.react before label) = some after →
      Device.Reacts before label after := fun _ _ _ _ goes => (Option.some.inj goes).symm
  obtain ⟨middle, before, test⟩ := Transition.Run.of_follow_any taken followed
  obtain ⟨device, after, test⟩ := Transition.Run.of_follow_any taken test
  obtain ⟨empty, enqueued⟩ := Bool.and_eq_true_iff.mp test
  have nothing : device.db.outbox = [] := List.isEmpty_iff.mp empty
  obtain ⟨once, single, _⟩ := outbox_resolves_once (app schema) Migrations.new [scope]
    queuedInSilence answeredTwice middle device before after (by decide)
  refine ⟨middle, device, before, after, nothing, single, ?_⟩
  rcases once edit.id (of_decide_eq_true enqueued) with ⟨⟨entry, member, _⟩, _⟩ | ⟨resolved, _⟩
  · rw [nothing] at member
    cases member
  · exact resolved

end Sample

end CredSync
