import CredSync.Core.OutboxLedger

/-! Recovered drafts. A superseded edit of an owner draft is kept for its author, in the
transaction that resolves it; whether it is one is decided by the registry of the app
that hears the answer, not of the one that took the edit. -/

namespace CredSync

/-! ### What a response saves -/

/-- What an op adds to the recovered drafts. -/
def StorageOp.draft : StorageOp → Option (CommandId × EntityName × Payload)
  | .saveRecoveredDraft entity id payload => some (id, entity, payload)
  | _ => none

theorem Db.staged_recovered (db : Db) (ops : List StorageOp) :
    (db.staged ops).recovered = db.recovered ++ ops.filterMap StorageOp.draft := by
  induction ops generalizing db with
  | nil => exact (List.append_nil _).symm
  | cons op rest ih =>
    rw [Db.staged_cons, ih]
    cases op with
    | saveRecoveredDraft entity id payload =>
      change db.recovered ++ [(id, entity, payload)] ++ _ = _
      rw [List.append_assoc]
      rfl
    | _ => rfl

/-- A transaction that saves no draft, whatever becomes of it. -/
theorem Db.transact_recovered (faults : Faults) (db : Db) (ops : List StorageOp)
    (quiet : ops.filterMap StorageOp.draft = []) :
    (db.transact faults ops).2.recovered = db.recovered := by
  have same : (db.staged ops).recovered = db.recovered := by
    rw [Db.staged_recovered, quiet, List.append_nil]
  unfold Db.transact
  cases faults.verdict with
  | commit => exact same
  | failBeforeCommit => rfl
  | commitThenLoseAck => exact same

/-- The draft that a result leaves of a queued command. -/
def savedDraft (registry : Registry) (entry : OutboxEntry) (result : CommandResult) :
    List (CommandId × EntityName × Payload) :=
  (recoveredDraft registry entry result).filterMap StorageOp.draft

/-- The saved drafts of one command. -/
def draftsOf (id : CommandId) (saved : List (CommandId × EntityName × Payload)) :
    List (CommandId × EntityName × Payload) :=
  saved.filter fun draft => draft.1 = id

theorem draftsOf_savedDraft (registry : Registry) (entry : OutboxEntry) (result : CommandResult)
    (id : CommandId) : draftsOf id (savedDraft registry entry result) =
      if result.id = id then savedDraft registry entry result else [] := by
  unfold draftsOf savedDraft recoveredDraft
  split
  · split
    · split
      · by_cases same : result.id = id <;> simp [StorageOp.draft, same]
      · simp
    · simp
  · simp

/-- What answering a response saves: each command resolved leaves what the first result
that named it leaves of it, and nothing else is saved. -/
structure Answering.Saves (answering : Answering) (registry : Registry)
    (outbox : List OutboxEntry) (heard : List CommandResult) : Prop where
  first : ∀ result ∈ heard, (∃ entry ∈ outbox, entry.id = result.id) →
    result.id ∈ answering.answered
  marked : ∀ id ∈ answering.ids, id ∈ answering.answered
  others : ∀ id ∉ answering.ids, draftsOf id (answering.ops.filterMap StorageOp.draft) = []
  records : ∀ id resolution, (id, resolution) ∈ answering.resolutions →
    ∃ entry result, outbox.find? (fun entry => entry.id = id) = some entry ∧
      heard.find? (fun result => result.id = id) = some result ∧
      resolution = resolutionOf result ∧
      draftsOf id (answering.ops.filterMap StorageOp.draft) = savedDraft registry entry result

theorem Answering.Saves.next {heard : List CommandResult}
    (saves : answering.Saves registry outbox heard) (result : CommandResult) :
    (answerOne registry outbox answering result).Saves registry outbox (heard ++ [result]) := by
  have later : ∀ id found, heard.find? (fun result => result.id = id) = some found →
      (heard ++ [result]).find? (fun result => result.id = id) = some found := by
    intro id found heardFirst
    rw [List.find?_append, heardFirst]
    rfl
  have kept : ∀ id resolution, (id, resolution) ∈ answering.resolutions →
      ∃ entry found, outbox.find? (fun entry => entry.id = id) = some entry ∧
        (heard ++ [result]).find? (fun result => result.id = id) = some found ∧
        resolution = resolutionOf found ∧
        draftsOf id (answering.ops.filterMap StorageOp.draft) = savedDraft registry entry found := by
    intro id resolution member
    obtain ⟨entry, found, queued, heardFirst, same, drafts⟩ := saves.records id resolution member
    exact ⟨entry, found, queued, later id found heardFirst, same, drafts⟩
  unfold answerOne
  cases found : outbox.find? fun entry => entry.id = result.id with
  | none =>
    refine ⟨fun other member queued => ?_, saves.marked, saves.others, kept⟩
    rcases List.mem_append.mp member with member | member
    · exact saves.first other member queued
    · obtain ⟨entry, inside, named⟩ := queued
      rw [List.mem_singleton.mp member] at named
      exact absurd (decide_eq_true named) (List.find?_eq_none.mp found entry inside)
  | some entry =>
    simp only
    split
    · rename_i answered
      refine ⟨fun other member queued => ?_, saves.marked, saves.others, kept⟩
      rcases List.mem_append.mp member with member | member
      · exact saves.first other member queued
      · rw [List.mem_singleton.mp member]
        exact answered
    · rename_i fresh
      have passes := List.find?_some found
      have matched : entry.id = result.id := of_decide_eq_true passes
      have unanswered : result.id ∉ answering.ids := fun member => fresh (saves.marked _ member)
      have unheard : heard.find? (fun other => other.id = result.id) = none := by
        apply List.find?_eq_none.mpr
        intro other member same
        have named : other.id = result.id := of_decide_eq_true same
        apply fresh
        rw [← named]
        exact saves.first other member
          ⟨entry, List.mem_of_find?_eq_some found, matched.trans named.symm⟩
      have drafts : ∀ id, draftsOf id ((answering.ops ++ recoveredDraft registry entry result ++
          [StorageOp.resolveCommand result.id (resolutionOf result)]).filterMap StorageOp.draft) =
          draftsOf id (answering.ops.filterMap StorageOp.draft) ++
            if result.id = id then savedDraft registry entry result else [] := by
        intro id
        rw [← draftsOf_savedDraft, List.filterMap_append, List.filterMap_append, draftsOf,
          List.filter_append, List.filter_append]
        exact List.append_nil _
      have ids : ∀ id, id ∈ (answering.resolutions ++ [(result.id, resolutionOf result)]).map
          Prod.fst ↔ id ∈ answering.ids ∨ id = result.id := by
        simp [Answering.ids]
      constructor
      · intro other member queued
        rcases List.mem_append.mp member with member | member
        · exact Finset.mem_insert_of_mem (saves.first other member queued)
        · rw [List.mem_singleton.mp member]
          exact Finset.mem_insert_self _ _
      · intro id member
        rcases (ids id).mp member with member | rfl
        · exact Finset.mem_insert_of_mem (saves.marked id member)
        · exact Finset.mem_insert_self _ _
      · intro id absent
        have apart := not_or.mp (mt (ids id).mpr absent)
        rw [drafts, saves.others id apart.1, if_neg (Ne.symm apart.2)]
        rfl
      · intro id resolution member
        rcases List.mem_append.mp member with member | member
        · obtain ⟨queued, named, inside, heardFirst, same, saved⟩ := kept id resolution member
          have other : result.id ≠ id := by
            rintro rfl
            exact unanswered (List.mem_map_of_mem member)
          refine ⟨queued, named, inside, heardFirst, same, ?_⟩
          rw [drafts, saved, if_neg other, List.append_nil]
        · cases List.mem_singleton.mp member
          refine ⟨entry, result, found, ?_, rfl, ?_⟩
          · rw [List.find?_append, unheard]
            simp
          · rw [drafts, saves.others _ unanswered, if_pos rfl, List.nil_append]

theorem answering_saves (registry : Registry) (outbox : List OutboxEntry)
    (results : List CommandResult) :
    (results.foldl (answerOne registry outbox) {}).Saves registry outbox results := by
  have fold : ∀ (rest heard : List CommandResult) (answering : Answering),
      answering.Saves registry outbox heard →
      (rest.foldl (answerOne registry outbox) answering).Saves registry outbox (heard ++ rest) := by
    intro rest
    induction rest with
    | nil => simp
    | cons result rest ih =>
      intro heard answering saves
      have further := ih (heard ++ [result]) _ (saves.next result)
      rw [List.append_assoc] at further
      exact further
  apply fold results [] {}
  constructor
  · exact fun _ member => nomatch member
  · exact fun _ member => nomatch member
  · exact fun _ _ => rfl
  · exact fun _ _ member => nomatch member

/-! ### Calls -/

variable {device : Device}

/-- A response leaves storage alone, or leaves what answering it makes of storage. -/
theorem Device.applyResults_db (queues : device.Queues) (faults : Faults)
    (response : PushResponse) :
    (device.applyResults faults response).2.db = device.db ∨
      faults.verdict ≠ .failBeforeCommit ∧ (device.applyResults faults response).2.db =
        device.db.staged (response.results.foldl
          (answerOne device.engine.registry device.db.outbox) {}).ops := by
  obtain ⟨-, db, reread⟩ := device.refreshOutboxIfSuspect_spec faults queues
  have same := device.refreshOutboxIfSuspect_same faults
  unfold applyResults
  generalize device.refreshOutboxIfSuspect faults = outcome at db reread same ⊢
  obtain ⟨_ | _, fresh⟩ := outcome
  · exact .inl db
  · have current := reread fresh rfl
    simp only at db same ⊢
    split
    · exact .inl db
    · unfold Db.transact
      rw [current, db, same.registry]
      cases faults.verdict with
      | commit => exact .inr ⟨nofun, rfl⟩
      | failBeforeCommit => exact .inl rfl
      | commitThenLoseAck => exact .inr ⟨nofun, rfl⟩

theorem Device.Plans.recovered [Hashing] {batch : Batch} {plan : Plan}
    (plans : device.Plans batch compareDigest rebuilding plan) :
    (device.db.staged plan.ops).recovered = device.db.recovered := by
  obtain ⟨rows, quarantine, only⟩ := device.engine.staged_opFor device.db batch.changes
  rw [plans.staged, only]

/-- Only a response to a push saves drafts. -/
theorem Device.call_recovered [Hashing] (device : Device) (faults : Faults) (call : ClientCall)
    (unanswered : ∀ response, call ≠ .applyResults response) :
    (device.call faults call).db.recovered = device.db.recovered := by
  have applied : ∀ batch compareDigest rebuilding,
      (device.applyChanges faults batch compareDigest rebuilding).2.db.recovered =
        device.db.recovered := by
    intro batch compareDigest rebuilding
    have ends := device.applyChanges_applies faults batch compareDigest rebuilding
    obtain ⟨scopes, suspect, refreshed⟩ := device.refreshIfSuspect_eq faults batch.scope
    rw [refreshed] at ends
    generalize device.applyChanges faults batch compareDigest rebuilding = outcome at ends ⊢
    cases ends with
    | refused e => rfl
    | committed plan _ plans => exact plans.recovered
    | unacknowledged e plan _ plans => exact plans.recovered
    | uncommitted e => rfl
  have refreshed : ∀ device : Device,
      (device.refreshOutboxIfSuspect faults).2.db.recovered = device.db.recovered := by
    intro device
    unfold refreshOutboxIfSuspect
    split
    · split <;> rfl
    · rfl
  cases call with
  | applyBatch batch => exact applied batch _ _
  | applyBootstrap response => exact applied response.toBatch _ _
  | applyResults response => exact absurd rfl (unanswered response)
  | beginRebootstrap scope =>
    have kept := device.db.transact_recovered faults
      (device.engine.registry.rebootstrapOps scope) rfl
    change (device.beginRebootstrap faults scope).2.db.recovered = _
    unfold beginRebootstrap
    generalize Db.transact faults device.db _ = outcome at kept ⊢
    obtain ⟨_ | _, left⟩ := outcome <;> exact kept
  | clearScopeHealth scope =>
    have kept := device.db.transact_recovered faults [.recordDivergence scope 0 false] rfl
    change (device.clearScopeHealth faults scope).2.db.recovered = _
    unfold clearScopeHealth
    generalize Db.transact faults device.db _ = outcome at kept ⊢
    obtain ⟨_ | _, left⟩ := outcome <;> exact kept
  | enqueue entry =>
    have kept := device.db.transact_recovered faults
      [.enqueueCommand entry.command entry.schemaVersion] rfl
    change (device.enqueue faults entry).2.db.recovered = _
    unfold enqueue
    generalize Db.transact faults device.db _ = outcome at kept ⊢
    cases device.engine.registry.checkCommand entry.command with
    | error e => rfl
    | ok entity => obtain ⟨_ | _, left⟩ := outcome <;> exact kept
  | reloadScope scope =>
    obtain ⟨scopes, suspect, same⟩ := device.refreshIfSuspect_eq faults scope
    change (device.reloadScope faults scope).2.db.recovered = _
    unfold reloadScope
    generalize device.refreshIfSuspect faults scope = outcome at same ⊢
    obtain ⟨_ | _, fresh⟩ := outcome
    · simp only at same ⊢
      rw [same]
    · simp only at same ⊢
      have kept := refreshed fresh
      rw [same] at kept ⊢
      generalize refreshOutboxIfSuspect faults _ = outcome at kept ⊢
      obtain ⟨_ | _, final⟩ := outcome <;> exact kept
  | buildPush compressedLen protocol budgetBytes =>
    have kept := refreshed device
    change (device.buildPush faults compressedLen protocol budgetBytes).2.db.recovered = _
    unfold buildPush
    generalize device.refreshOutboxIfSuspect faults = outcome at kept ⊢
    obtain ⟨_ | _, fresh⟩ := outcome
    · exact kept
    · simp only
      split
      · exact kept
      · split <;> exact kept

/-! ### Runs -/

/-- A device, and the commands it took as edits of owner drafts. -/
structure Author where
  device : Device
  drafts : List OutboxEntry := []

/-- The entity a command writes, if the app takes it for an owner draft. -/
def Registry.draftOf (registry : Registry) (command : Command) : Option EntityName :=
  (registry.targetOf command.name).filter fun entity =>
    registry.classOf entity = some .ownerDraft

/-- The edit of an owner draft that an event is taken for. -/
def Device.drafted (device : Device) : ClientEvent → List OutboxEntry
  | .call _ (.enqueue entry) =>
    if (device.engine.registry.checkCommand entry.command).isOk ∧
        (device.engine.registry.draftOf entry.command).isSome then [entry] else []
  | _ => []

/-- What superseding the edit of an owner draft saves. -/
theorem savedDraft_superseded {registry : Registry} {entry : OutboxEntry} {result : CommandResult}
    (superseded : result.status = .superseded) (draft : (registry.draftOf entry.command).isSome) :
    ∃ entity, savedDraft registry entry result = [(result.id, entity, entry.command.payload)] := by
  unfold Registry.draftOf at draft
  cases target : registry.targetOf entry.command.name with
  | none =>
    rw [target] at draft
    cases draft
  | some entity =>
    rw [target, Option.isSome_filter] at draft
    refine ⟨entity, ?_⟩
    simp only [savedDraft, recoveredDraft, superseded, target]
    rw [if_pos (by simpa using draft)]
    rfl

section Runs

variable [Hashing]

def Author.react (author : Author) (event : ClientEvent) : Author :=
  ⟨author.device.react event, author.drafts ++ author.device.drafted event⟩

def Author.Reacts (before : Author) (event : ClientEvent) (after : Author) : Prop :=
  after = before.react event

/-- An answer that supersedes a queued draft is not committed by an app that takes the
command for something else. -/
def Author.StillDrafts (author : Author) : ClientEvent → Prop
  | .call faults (.applyResults response) => faults.verdict ≠ .failBeforeCommit →
      ∀ entry ∈ author.drafts, entry ∈ author.device.db.outbox →
        ∀ result ∈ response.results.find? (fun result => result.id = entry.id),
          result.status = .superseded →
          (author.device.engine.registry.draftOf entry.command).isSome
  | _ => True

/-- What every event keeps: the outbox holds a draft as it was taken, nothing is saved
of a command before it is resolved, and a superseded draft is saved once. -/
structure Author.Keeps (author : Author) (past : List ClientEvent) : Prop where
  device : author.device.Keeps past
  named : ∀ draft ∈ author.drafts, draft.id ∈ past.filterMap ClientEvent.queues
  same : ∀ draft ∈ author.drafts, ∀ entry ∈ author.device.db.outbox,
    entry.id = draft.id → entry = draft
  unsaved : ∀ id ∉ author.device.db.resolved.map Prod.fst,
    draftsOf id author.device.db.recovered = []
  saved : ∀ draft ∈ author.drafts, (draft.id, .superseded) ∈ author.device.db.resolved →
    ∃ entity, draftsOf draft.id author.device.db.recovered =
      [(draft.id, entity, draft.command.payload)]

variable {author : Author} {past : List ClientEvent}

/-- The command an event queues, with the version it was authored under. -/
def ClientEvent.enters : ClientEvent → Option OutboxEntry
  | .call _ made => made.queues
  | .restart .. => none

omit [Hashing] in
theorem ClientEvent.enters_id {event : ClientEvent} {entry : OutboxEntry} (queued : entry ∈ event.enters) :
    entry.id ∈ event.queues := by
  cases event with
  | call faults call => exact Option.mem_map_of_mem OutboxEntry.id queued
  | restart registry migrations scopes => cases queued

omit [Hashing] in
theorem Device.drafted_entry (drafted : draft ∈ device.drafted event) :
    draft ∈ ClientEvent.enters event := by
  unfold Device.drafted at drafted
  split at drafted
  · split at drafted
    · rw [List.mem_singleton.mp drafted]
      rfl
    · cases drafted
  · cases drafted

theorem Device.react_entry (queues : device.Queues) (event : ClientEvent) :
    device.db.Moves (device.react event).db event.answers event.enters := by
  cases event with
  | call faults call => exact (Device.call_moves queues faults call).1
  | restart registry migrations scopes => exact .kept rfl rfl rfl

omit [Hashing] in
/-- What is queued or resolved was queued by an event of the past. -/
theorem Device.Keeps.queuedBefore {id : CommandId} (keeps : device.Keeps past)
    (known : id ∈ device.db.outbox.map OutboxEntry.id ∨ id ∈ device.db.resolved.map Prod.fst) :
    id ∈ past.filterMap ClientEvent.queues :=
  keeps.named id ((keeps.ledger.known id).mpr known)

/-- An event that saves and resolves nothing. -/
theorem Author.Keeps.unanswered (keeps : author.Keeps past) (event : ClientEvent)
    (unused : ∀ id ∈ event.queues, id ∉ past.filterMap ClientEvent.queues)
    (recovered : (author.device.react event).db.recovered = author.device.db.recovered)
    (unresolved : ∀ record ∈ (author.device.react event).db.resolved,
      record ∈ author.device.db.resolved) : (author.react event).Keeps (past ++ [event]) := by
  have moves := Device.react_entry keeps.device.queues event
  have fresh : ∀ entry ∈ event.enters, entry.id ∉ past.filterMap ClientEvent.queues :=
    fun entry queued => unused _ (ClientEvent.enters_id queued)
  constructor
  · exact keeps.device.react event unused
  · intro draft member
    rw [List.filterMap_append, List.mem_append]
    rcases List.mem_append.mp member with old | new
    · exact .inl (keeps.named draft old)
    · have queued := ClientEvent.enters_id (Device.drafted_entry new)
      exact .inr (List.mem_filterMap.mpr ⟨event, List.mem_singleton_self event, queued⟩)
  · intro draft member entry queued named
    rcases List.mem_append.mp member with old | new
    · rcases moves.outbox entry queued with before | entered
      · exact keeps.same draft old entry before named
      · have known := keeps.named draft old
        rw [← named] at known
        exact absurd known (fresh entry entered)
    · have drafted := Device.drafted_entry new
      rcases moves.outbox entry queued with before | entered
      · have known := keeps.device.queuedBefore (.inl (List.mem_map_of_mem before))
        rw [named] at known
        exact absurd known (fresh draft drafted)
      · exact Option.mem_unique entered drafted
  · intro id absent
    change draftsOf id (author.device.react event).db.recovered = []
    rw [recovered]
    apply keeps.unsaved
    intro member
    obtain ⟨record, inside, named⟩ := List.mem_map.mp member
    exact absent (List.mem_map.mpr ⟨record, moves.records record inside, named⟩)
  · intro draft member superseded
    have before := unresolved _ superseded
    change ∃ entity, draftsOf draft.id (author.device.react event).db.recovered = _
    rw [recovered]
    rcases List.mem_append.mp member with old | new
    · exact keeps.saved draft old before
    · have known := keeps.device.queuedBefore (.inr (List.mem_map_of_mem before))
      exact absurd known (fresh draft (Device.drafted_entry new))

/-- An answer that is committed keeps the drafts it supersedes. -/
theorem Author.Keeps.answered (keeps : author.Keeps past) (faults : Faults)
    (response : PushResponse) (stillDrafts : author.StillDrafts (.call faults (.applyResults response)))
    (committed : faults.verdict ≠ .failBeforeCommit)
    (db : (author.device.applyResults faults response).2.db =
      author.device.db.staged (response.results.foldl
        (answerOne author.device.engine.registry author.device.db.outbox) {}).ops) :
    (author.react (.call faults (.applyResults response))).Keeps
      (past ++ [.call faults (.applyResults response)]) := by
  have resolves := answering_resolves author.device.engine.registry author.device.db.outbox
    response.results
  have saves := answering_saves author.device.engine.registry author.device.db.outbox
    response.results
  generalize response.results.foldl
    (answerOne author.device.engine.registry author.device.db.outbox) {} = answering
    at db resolves saves
  have ledger := keeps.device.ledger
  have recovered : ∀ id, draftsOf id (author.device.applyResults faults response).2.db.recovered =
      draftsOf id author.device.db.recovered ++
        draftsOf id (answering.ops.filterMap StorageOp.draft) := by
    intro id
    rw [db, Db.staged_recovered]
    exact List.filter_append ..
  have resolved : (author.device.applyResults faults response).2.db.resolved =
      author.device.db.resolved ++ answering.resolutions := by
    rw [db, resolves.records]
  have queued : ∀ id ∈ answering.ids, id ∉ author.device.db.resolved.map Prod.fst := by
    intro id member
    obtain ⟨entry, inside, named⟩ := resolves.queued id member
    exact ledger.apart id (List.mem_map.mpr ⟨entry, inside, named⟩)
  have drafts : (author.react (.call faults (.applyResults response))).drafts = author.drafts :=
    List.append_nil _
  constructor
  · refine keeps.device.react (.call faults (.applyResults response)) ?_
    intro id impossible
    cases impossible
  · intro draft member
    rw [drafts] at member
    rw [List.filterMap_append]
    exact List.mem_append_left _ (keeps.named draft member)
  · intro draft member entry left named
    rw [drafts] at member
    change entry ∈ (author.device.applyResults faults response).2.db.outbox at left
    rw [db, resolves.removes] at left
    exact keeps.same draft member entry (List.mem_filter.mp left).1 named
  · intro id absent
    change id ∉ (author.device.applyResults faults response).2.db.resolved.map Prod.fst at absent
    rw [resolved, List.map_append, List.mem_append, not_or] at absent
    change draftsOf id (author.device.applyResults faults response).2.db.recovered = []
    rw [recovered, keeps.unsaved id absent.1, saves.others id absent.2, List.append_nil]
  · intro draft member superseded
    rw [drafts] at member
    change _ ∈ (author.device.applyResults faults response).2.db.resolved at superseded
    change ∃ entity,
      draftsOf draft.id (author.device.applyResults faults response).2.db.recovered = _
    rw [resolved] at superseded
    rw [recovered]
    rcases List.mem_append.mp superseded with before | now
    · have unanswered : draft.id ∉ answering.ids := fun inside =>
        queued draft.id inside (List.mem_map_of_mem before)
      rw [saves.others _ unanswered, List.append_nil]
      exact keeps.saved draft member before
    · have answered : draft.id ∈ answering.ids := List.mem_map_of_mem now
      obtain ⟨entry, result, found, heard, same, saved⟩ := saves.records _ _ now
      have inside := List.mem_of_find?_eq_some found
      have passes := List.find?_some found
      have named : entry.id = draft.id := of_decide_eq_true passes
      have names := List.find?_some heard
      have identified : result.id = draft.id := of_decide_eq_true names
      obtain rfl := keeps.same draft member entry inside named
      have status : result.status = .superseded := by
        unfold resolutionOf at same
        split at same
        · cases same
        · assumption
        · cases same
      have still := stillDrafts committed entry member inside result heard status
      obtain ⟨entity, one⟩ := savedDraft_superseded status still
      refine ⟨entity, ?_⟩
      rw [keeps.unsaved _ (queued _ answered), saved, one, identified, List.nil_append]

theorem Author.Keeps.react {event : ClientEvent} (keeps : author.Keeps past)
    (stillDrafts : author.StillDrafts event)
    (unused : ∀ id ∈ event.queues, id ∉ past.filterMap ClientEvent.queues) :
    (author.react event).Keeps (past ++ [event]) := by
  have moves := Device.react_entry keeps.device.queues event
  have unheard : event.answers = [] → ∀ record ∈ (author.device.react event).db.resolved,
      record ∈ author.device.db.resolved := by
    intro nothing record member
    rcases moves.answered record member with before | ⟨result, heard, _⟩
    · exact before
    · rw [nothing] at heard
      cases heard
  cases event with
  | restart registry migrations scopes => exact keeps.unanswered _ unused rfl (unheard rfl)
  | call faults call =>
    cases call with
    | applyResults response =>
      rcases author.device.applyResults_db keeps.device.queues faults response with
        same | ⟨committed, db⟩
      · exact keeps.unanswered _ unused (congrArg Db.recovered same)
          fun record member => congrArg Db.resolved same ▸ member
      · exact keeps.answered faults response stillDrafts committed db
    | applyBatch _ | applyBootstrap _ | beginRebootstrap _ | reloadScope _ | clearScopeHealth _
    | enqueue _ | buildPush _ _ _ =>
      exact keeps.unanswered _ unused
        (author.device.call_recovered faults _ fun _ impossible => nomatch impossible) (unheard rfl)

theorem Author.Keeps.run {after : Author} {events : List ClientEvent}
    (run : Transition.Run (Transition.Guarded Author.Reacts Author.StillDrafts) author events after)
    (keeps : author.Keeps past) (once : ((past ++ events).filterMap ClientEvent.queues).Nodup) :
    after.Keeps (past ++ events) := by
  induction run generalizing past with
  | done => simpa using keeps
  | @next before event middle events final first rest ih =>
    obtain ⟨stillDrafts, rfl⟩ := first
    have unused := unqueued_of_once once
    have split : past ++ event :: events = (past ++ [event]) ++ events := by simp
    rw [split] at once ⊢
    exact ih (keeps.react stillDrafts unused) once

/-- While the app that hears a draft superseded still takes its command for an owner
draft, and no command is queued twice: from the transaction that resolves a draft as
superseded on, storage holds its payload among the recovered drafts exactly once. -/
theorem superseded_drafts_recovered (registry : Registry) (migrations : Migrations)
    (scopes : List ScopeId) (events : List ClientEvent) (author : Author)
    (run : Transition.Run (Transition.Guarded Author.Reacts Author.StillDrafts)
      ⟨Device.restart registry migrations scopes {}, []⟩ events author)
    (once : (events.filterMap ClientEvent.queues).Nodup) :
    ∀ draft ∈ author.drafts, (draft.id, .superseded) ∈ author.device.db.resolved →
      ∃ entity, draftsOf draft.id author.device.db.recovered =
        [(draft.id, entity, draft.command.payload)] := by
  have start : Author.Keeps ⟨Device.restart registry migrations scopes {}, []⟩ [] := by
    constructor
    · exact Device.restart_keeps registry migrations scopes
    · exact fun _ member => nomatch member
    · exact fun _ member => nomatch member
    · exact fun _ _ => rfl
    · exact fun _ member => nomatch member
  exact (start.run run once).saved

end Runs

namespace Sample

attribute [local instance] noteHashes

/-- The server superseded the edit. -/
def supersededEdit : ClientEvent :=
  .call .none (.applyResults ⟨1, [⟨edit.id, .superseded, none, none⟩]⟩)

theorem supersededEdit_recovered : ∃ author,
    Transition.Run (Transition.Guarded Author.Reacts Author.StillDrafts)
      ⟨Device.restart (app schema) Migrations.new [scope] {}, []⟩
      [.call .none (.enqueue edit), supersededEdit] author ∧
    ∃ entity, draftsOf edit.id author.device.db.recovered =
      [(edit.id, entity, edit.command.payload)] := by
  let start : Author := ⟨Device.restart (app schema) Migrations.new [scope] {}, []⟩
  let queued := start.react (.call .none (.enqueue edit))
  have taken : queued.drafts = [edit] := by
    have accepted : ((app schema).checkCommand edit.command).isOk ∧
        ((app schema).draftOf edit.command).isSome := by decide +kernel
    change [] ++ Device.drafted start.device (.call .none (.enqueue edit)) = [edit]
    rw [List.nil_append, Device.drafted]
    exact if_pos accepted
  have still : queued.StillDrafts supersededEdit := by
    intro _ draft member _ _ _ _
    rw [taken] at member
    rw [List.mem_singleton.mp member]
    decide +kernel
  have run : Transition.Run (Transition.Guarded Author.Reacts Author.StillDrafts) start
      [.call .none (.enqueue edit), supersededEdit] (queued.react supersededEdit) :=
    .next ⟨trivial, rfl⟩ (.single ⟨still, rfl⟩)
  refine ⟨_, run, ?_⟩
  have drafted : edit ∈ (queued.react supersededEdit).drafts := by
    change edit ∈ queued.drafts ++ []
    simp [taken]
  exact superseded_drafts_recovered (app schema) Migrations.new [scope] _ _ run (by decide) edit
    drafted (by decide +kernel)

/-- The app comes back without the command before the edit is superseded. -/
def dropped : List ClientEvent :=
  [.call .none (.enqueue edit), .restart notes Migrations.new [scope], supersededEdit]

theorem dropped_loses : ∃ author,
    Transition.Run Author.Reacts ⟨Device.restart (app schema) Migrations.new [scope] {}, []⟩
      dropped author ∧
    author.drafts.map OutboxEntry.id = [edit.id] ∧
    (edit.id, .superseded) ∈ author.device.db.resolved ∧ author.device.db.recovered = [] := by
  have followed : (Transition.follow (fun _ _ => true)
      (fun author event => some (Author.react author event))
      ⟨Device.restart (app schema) Migrations.new [scope] {}, []⟩ dropped).any (fun author =>
        decide (author.drafts.map OutboxEntry.id = [edit.id] ∧
          (edit.id, .superseded) ∈ author.device.db.resolved) &&
            author.device.db.recovered.isEmpty) = true := by
    decide +kernel
  have taken : ∀ (before : Author) (event : ClientEvent) after, true = true →
      some (before.react event) = some after → Author.Reacts before event after :=
    fun _ _ _ _ goes => (Option.some.inj goes).symm
  obtain ⟨author, run, test⟩ := Transition.Run.of_follow_any taken followed
  obtain ⟨test, empty⟩ := Bool.and_eq_true_iff.mp test
  obtain ⟨drafted, resolved⟩ := of_decide_eq_true test
  exact ⟨author, run, drafted, resolved, List.isEmpty_iff.mp empty⟩

end Sample

end CredSync
