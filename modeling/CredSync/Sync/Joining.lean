import CredSync.Core.Acceptance
import CredSync.Core.Memory
import CredSync.Sync.Shown

/-! Two ways onto a scope's log: pulling it from the start, or joining it through the
compacted log and pulling on. Each device is fed what the database serves at its own
cursor, while the log grows. -/

namespace CredSync

/-! ### Changes that need no migration -/

/-- A change that is stored as it stands. -/
def Change.Current (registry : Registry) (change : Change) : Prop :=
  ∀ target ∈ registry.schemaVersionOf change.entity,
    change.schemaVersion = target ∨ change.snapshot = none

/-- A change as one write of the row it carries. -/
def Change.stored (change : Change) : KeyedLog.Entry RowKey StoredRow :=
  ⟨change.seq.get, change.key, change.row⟩

theorem Change.stored_same (change : Change) :
    change.stored.seq = change.seq.get ∧ change.stored.key = change.key := ⟨rfl, rfl⟩

theorem Change.stored_removes {change : Change} (deleted : change.op = .delete) :
    change.stored.value = none := by
  simp [stored, row, deleted]

section Current

variable {engine : Engine} {change : Change}

theorem Engine.landing_current (current : change.Current engine.registry) :
    engine.landing change = .ok change := by
  have kept : engine.migratedChange change = .ok none := by
    unfold migratedChange
    cases known : engine.registry.schemaVersionOf change.entity with
    | none => rfl
    | some target =>
      rcases current target known with same | absent
      · simp [same]
      · simp [absent]
  rw [landing, kept]
  rfl

theorem Engine.lands_current (current : change.Current engine.registry) :
    engine.lands change = true := by
  rw [lands, landing_current current]
  rfl

theorem Engine.storedEntry_current (current : change.Current engine.registry) :
    engine.storedEntry change = change.stored := by
  rw [storedEntry, landing_current current]
  rfl

theorem Engine.guard_current (current : change.Current engine.registry) :
    engine.guard change = engine.registry.classOf change.entity := by
  rw [guard, lands_current current, if_pos rfl]

end Current

/-- The version a log leaves a row at is that of the row it leaves. -/
theorem version_live {changes : List Change} (valid : ∀ change ∈ changes, change.validate = .ok ()) :
    (fun key => (KeyedLog.live (changes.map Change.stored) key).map (·.rowVersion)) =
      KeyedLog.live (changes.map Change.entry) := by
  rw [KeyedLog.live, KeyedLog.replay_map, List.map_map]
  change KeyedLog.replay (fun _ => none) _ = _
  congr 1
  apply List.map_congr_left
  intro change member
  exact congrArg (KeyedLog.Entry.mk change.seq.get change.key)
    (change.row_version (valid change member))

/-! ### Replicas -/

/-- A device, the log it follows, and what it has applied of it. One that has not
joined yet is still fed pages of the compacted log. -/
structure Replica where
  log : ScopeLog
  device : Device
  received : List Change := []
  joined : Bool
  refused : Bool := false

namespace Replica

def fresh (registry : Registry) (migrations : Migrations) (log : ScopeLog) (joined : Bool) :
    Replica where
  log := log
  device := ⟨{ registry := registry, migrations := migrations }, {}⟩
  joined := joined

inductive Label where
  | grow
  | page (response : BootstrapResponse)
  | pull (batch : Batch)

def cursor (replica : Replica) (scope : ScopeId) : Cursor :=
  (replica.device.engine.scopeStateOr scope).cursor

/-- What applying a batch leaves of a replica. -/
def take (replica : Replica) (batch : Batch) (outcome : Except ApplyError Applied × Device)
    (joined : Bool) : Replica :=
  match outcome.1 with
  | .ok _ => { replica with
      device := outcome.2
      received := replica.received ++ batch.changes
      joined := joined }
  | .error _ => { replica with device := outcome.2, refused := true }

variable [Hashing] (registry : Registry) (scope : ScopeId)

/-- The log grows, or the device applies what it is served. A page that says there is no
more is the last one before ordinary pulls go on from its cursor. -/
inductive Step : Replica → Label → Replica → Prop where
  | grow (replica : Replica) (log : ScopeLog) (longer : replica.log.changes <+: log.changes) :
      Step replica .grow { replica with log := log }
  | page (replica : Replica) (response : BootstrapResponse) (joining : replica.joined = false)
      (boots : replica.log.Boots scope (replica.cursor scope) response.toBatch) :
      Step replica (.page response)
        (replica.take response.toBatch (replica.device.applyBootstrap .none response)
          (!response.hasMore))
  | pull (replica : Replica) (batch : Batch) (joined : replica.joined = true)
      (pulls : replica.log.Pulls scope (replica.cursor scope) batch) :
      Step replica (.pull batch)
        (replica.take batch (replica.device.applyBatch .none batch) true)

omit [Hashing] in
/-- No page brings back an append-only row at another version, where the replica has the
row from an earlier page and the log deleted it since. -/
def Spares (replica : Replica) : Label → Prop
  | .page response => ∀ late ∈ response.changes, late.op = .upsert →
      registry.classOf late.entity = some .appendOnly →
      ∀ early ∈ replica.received, early.key = late.key → early.op = .upsert →
        isLatest replica.received early = true →
      ∀ removed ∈ replica.log.changes, removed.key = late.key → removed.op = .delete →
        early.seq.get < removed.seq.get → removed.seq.get < late.seq.get →
      early.rowVersion = late.rowVersion
  | _ => True

/-- What a replica that was never refused holds of its log. -/
structure Follows (replica : Replica) : Prop where
  registered : replica.device.engine.registry = registry
  trusted : scope ∉ replica.device.engine.suspect
  mirrors : replica.device.Mirrors
  version : replica.device.db.version = KeyedLog.live (replica.received.map Change.entry)
  balance : ∀ keys : Finset RowKey, (∀ change ∈ replica.received, change.key ∈ keys) →
    (replica.device.engine.scopeStateOr scope).digest.raw =
      KeyedLog.weigh versionHash keys replica.device.db.version
  drawn : ∀ change ∈ replica.received,
    change ∈ replica.log.changes ∧ change.seq.get ≤ (replica.cursor scope).get
  ascending : KeyedLog.Ascending (fun change : Change => change.seq.get) replica.received
  marks : replica.log.Marks (replica.cursor scope).get
  settled : KeyedLog.Settled Set.univ replica.device.db.holding
    (replica.log.changes.map Change.stored) (replica.cursor scope).get
  blank : (replica.cursor scope).get = 0 → replica.received = []
  placed : replica.joined = true → ∀ key, replica.device.db.version key = none ∨
    replica.device.db.version key =
      KeyedLog.live ((replica.log.upTo (replica.cursor scope).get).map Change.entry) key

variable {registry scope} {replica : Replica} {batch : Batch} {source : List Change}

omit [Hashing] in
theorem cursor_eq (replica : Replica) (scope : ScopeId) :
    replica.cursor scope = (replica.device.engine.scopeStateOr scope).cursor := rfl

theorem fresh_follows (registry : Registry) (migrations : Migrations) (scope : ScopeId)
    (log : ScopeLog) (joined : Bool) : (fresh registry migrations log joined).Follows registry scope := by
  have nothing : (fresh registry migrations log joined).device.db.version = fun _ => none := rfl
  refine ⟨rfl, Finset.notMem_empty scope, fun _ _ => rfl, rfl, fun keys _ => ?_,
    (fun _ impossible => nomatch impossible), List.Pairwise.nil, .inl rfl, ?_, fun _ => rfl,
    fun _ key => .inl rfl⟩
  · rw [nothing, KeyedLog.weigh]
    exact (Finset.sum_eq_zero fun key _ => rfl).symm
  · refine KeyedLog.Settled.empty (fun _ _ => rfl) fun entry member => ?_
    obtain ⟨change, _, rfl⟩ := List.mem_map.mp member
    exact change.seq.lower

/-- A longer log keeps everything a replica holds of the shorter one. -/
theorem Follows.grow (follows : replica.Follows registry scope) {log : ScopeLog}
    (longer : replica.log.changes <+: log.changes) :
    Follows registry scope { replica with log := log } where
  registered := follows.registered
  trusted := follows.trusted
  mirrors := follows.mirrors
  version := follows.version
  balance := follows.balance
  drawn := fun change member =>
    (follows.drawn change member).imp_left fun known => longer.subset known
  ascending := follows.ascending
  marks := follows.marks.grow longer
  settled := by
    obtain ⟨extra, grown⟩ := longer
    rw [← grown, List.map_append]
    apply follows.settled.grow
    intro entry member
    obtain ⟨change, inside, rfl⟩ := List.mem_map.mp member
    exact follows.marks.later grown change inside
  blank := follows.blank
  placed := by
    intro joined key
    have same := follows.marks.upTo_grow longer
    rw [cursor_eq] at same
    simp only [cursor_eq, same]
    exact follows.placed joined key

/-- A replica accepts of what it is offered exactly what leaves its append-only rows alone. -/
theorem Follows.accepts_iff (follows : replica.Follows registry scope)
    (carries : batch.Carries (replica.cursor scope) source)
    (offers : replica.log.Offers (replica.cursor scope) source) (served : batch.scope = scope)
    (current : ∀ change ∈ replica.log.changes, change.Current registry)
    (compareDigest rebuilding : Bool) :
    (replica.device.applyChanges .none batch compareDigest rebuilding).1.isOk = true ↔
      AppendsOnly (fun change => registry.classOf change.entity) replica.device.db.version
        batch.changes := by
  have trusted : batch.scope ∉ replica.device.engine.suspect := served ▸ follows.trusted
  have ordered := carries.ordered offers
  have guarded : ∀ change ∈ batch.changes,
      replica.device.engine.guard change = registry.classOf change.entity := fun change member => by
    have known := ScopeLog.mem_after.mp (offers.within.subset (carries.within.subset member))
    rw [Engine.guard_current (follows.registered ▸ current change known.1), follows.registered]
  rw [replica.device.applyChanges_ok_iff trusted, served, ← cursor_eq, AppendsOnly.congr guarded]
  exact and_iff_right ordered

/-- A replica with a batch committed. -/
def commit (replica : Replica) (batch : Batch) (plan : Plan) (joined : Bool) : Replica :=
  { replica with
    device := ⟨Device.advance replica.device.engine batch plan, replica.device.db.staged plan.ops⟩
    received := replica.received ++ batch.changes
    joined := joined }

theorem Follows.take_accepted (follows : replica.Follows registry batch.scope)
    {compareDigest rebuilding joined : Bool} {outcome : Except ApplyError Applied × Device}
    (applied : outcome = replica.device.applyChanges .none batch compareDigest rebuilding)
    (accepted : outcome.1.isOk = true) :
    ∃ plan, replica.device.Plans batch compareDigest rebuilding plan ∧
      replica.take batch outcome joined = replica.commit batch plan joined := by
  subst applied
  obtain ⟨plan, applied, plans, done⟩ :=
    replica.device.applyChanges_commits follows.trusted accepted
  refine ⟨plan, plans, ?_⟩
  rw [done]
  rfl

theorem commit_state (replica : Replica) (batch : Batch) (plan : Plan) (joined : Bool) :
    (replica.commit batch plan joined).device.engine.scopeStateOr batch.scope =
      ⟨batch.nextCursor, plan.digest⟩ := by
  obtain ⟨emitted, moved⟩ := Device.advance_eq replica.device.engine batch plan
  rw [commit, moved]
  simp [Engine.scopeStateOr]

theorem Follows.nothing (follows : replica.Follows registry scope)
    (start : (replica.cursor scope).get = 0) (key : RowKey) :
    replica.device.db.version key = none := by
  rw [follows.version, follows.blank start]
  rfl

/-- What a replica holds after a batch it accepted. -/
theorem Follows.committed (follows : replica.Follows registry batch.scope)
    (carries : batch.Carries (replica.cursor batch.scope) source)
    (offers : replica.log.Offers (replica.cursor batch.scope) source)
    (current : ∀ change ∈ replica.log.changes, change.Current registry)
    {compareDigest rebuilding joined : Bool} {plan : Plan}
    (plans : replica.device.Plans batch compareDigest rebuilding plan)
    (places : joined = true → ∀ key,
      KeyedLog.replay replica.device.db.version (batch.changes.map Change.entry) key = none ∨
      KeyedLog.replay replica.device.db.version (batch.changes.map Change.entry) key =
        KeyedLog.live ((replica.log.upTo batch.nextCursor.get).map Change.entry) key) :
    (replica.commit batch plan joined).Follows registry batch.scope := by
  obtain ⟨emitted, moved⟩ := Device.advance_eq replica.device.engine batch plan
  have state := replica.commit_state batch plan joined
  have cursor : (replica.commit batch plan joined).cursor batch.scope = batch.nextCursor := by
    rw [cursor_eq, state]
  have known : ∀ change ∈ batch.changes, change ∈ replica.log.changes := fun change member =>
    (ScopeLog.mem_after.mp (offers.within.subset (carries.within.subset member))).1
  have current : ∀ change ∈ batch.changes, change.Current replica.device.engine.registry :=
    fun change member => follows.registered ▸ current change (known change member)
  have ordered := carries.ordered offers
  have forward := carries.forward offers
  have landed : batch.changes.filter replica.device.engine.lands = batch.changes :=
    List.filter_eq_self.mpr fun change member => Engine.lands_current (current change member)
  have version : (replica.commit batch plan joined).device.db.version =
      KeyedLog.replay replica.device.db.version (batch.changes.map Change.entry) := by
    rw [commit, plans.version, landed]
  have holding : (replica.commit batch plan joined).device.db.holding =
      KeyedLog.replay replica.device.db.holding (batch.changes.map Change.stored) := by
    rw [commit, plans.holding, landed]
    congr 1
    exact List.map_congr_left fun change member => Engine.storedEntry_current (current change member)
  have nothing : (replica.cursor batch.scope).get = 0 →
      ∀ key, replica.device.db.holding key = none := fun start key =>
    Option.map_eq_none_iff.mp (follows.nothing start key)
  have reached : ∀ change ∈ replica.received, change.seq.get ≤ (replica.cursor batch.scope).get :=
    fun change member => (follows.drawn change member).2
  refine ⟨?_, ?_, ?_, ?_, ?_, ?_, ?_, ?_, ?_, ?_, ?_⟩
  · rw [commit, moved]
    exact follows.registered
  · rw [commit, moved]
    exact follows.trusted
  · exact follows.mirrors.applies (.committed plan follows.trusted plans)
  · rw [version, follows.version, commit, List.map_append, KeyedLog.live, KeyedLog.live,
      KeyedLog.replay_append]
  · intro keys covers
    have before := follows.balance keys fun change member => covers change (List.mem_append_left _ member)
    have balance := plans.balance keys fun change member =>
      covers change (List.mem_append_right _ member)
    rw [before, sub_self, sub_eq_zero, ← version] at balance
    rw [state]
    exact balance
  · intro change member
    rw [cursor]
    rcases List.mem_append.mp member with earlier | later
    · exact ⟨(follows.drawn change earlier).1, (reached change earlier).trans forward⟩
    · exact ⟨known change later, ordered.covered change later⟩
  · exact KeyedLog.Ascending.append_iff.mpr ⟨follows.ascending, ordered.ascending,
      fun earlier member later inside => (reached earlier member).trans_lt (ordered.above later inside)⟩
  · rw [cursor]
    exact carries.marks offers follows.marks
  · rw [cursor, holding]
    exact follows.settled.advance (entries_ascending Change.stored_same replica.log.ascending)
      (carries.advances offers Change.stored_same (fun _ => Change.stored_removes) nothing
        (.inl le_rfl))
  · intro start
    rw [cursor] at start
    obtain ⟨empty, before⟩ := carries.blank start
    have earlier := follows.blank before
    change replica.received ++ batch.changes = []
    rw [earlier, empty]
    rfl
  · intro done key
    rw [version, cursor]
    exact places done key

/-- Rows at most one log ago, or absent: what a batch that goes on with the log finds. -/
theorem Follows.places_pull (follows : replica.Follows registry scope)
    (joined : replica.joined = true)
    (carries : batch.Carries (replica.cursor scope) (replica.log.after (replica.cursor scope)))
    (key : RowKey) :
    KeyedLog.replay replica.device.db.version (batch.changes.map Change.entry) key = none ∨
    KeyedLog.replay replica.device.db.version (batch.changes.map Change.entry) key =
      KeyedLog.live ((replica.log.upTo batch.nextCursor.get).map Change.entry) key := by
  rw [carries.continues, List.map_append, KeyedLog.live, KeyedLog.replay_append]
  by_cases written : ∃ entry ∈ batch.changes.map Change.entry, entry.key = key
  · exact .inr (KeyedLog.replay_written written _ _)
  · have absent : ∀ entry ∈ batch.changes.map Change.entry, entry.key ≠ key :=
      fun entry member same => written ⟨entry, member, same⟩
    rw [KeyedLog.replay_absent absent, KeyedLog.replay_absent absent]
    exact follows.placed joined key

/-- Versions are settled where rows are. -/
theorem Follows.settled_version (follows : replica.Follows registry scope) :
    KeyedLog.Settled Set.univ replica.device.db.version
      (replica.log.changes.map Change.entry) (replica.cursor scope).get := by
  intro key inside below
  rw [← version_live replica.log.valid]
  refine congrArg (Option.map _) (follows.settled key inside fun entry member => ?_)
  obtain ⟨change, known, rfl⟩ := List.mem_map.mp member
  exact below change.entry (List.mem_map_of_mem known)

/-- A page that says there is no more leaves every row as the log does. -/
theorem Follows.finishes (follows : replica.Follows registry scope)
    (carries : batch.Carries (replica.cursor scope) source)
    (offers : replica.log.Offers (replica.cursor scope) source) (finished : batch.hasMore = false)
    (key : RowKey) :
    KeyedLog.replay replica.device.db.version (batch.changes.map Change.entry) key =
      KeyedLog.live (replica.log.changes.map Change.entry) key := by
  have ascending := entries_ascending Change.entry_same replica.log.ascending
  have settled : KeyedLog.Settled Set.univ
      (KeyedLog.replay replica.device.db.version (batch.changes.map Change.entry))
      (replica.log.changes.map Change.entry)
      (KeyedLog.reached KeyedLog.Entry.seq 0 (replica.log.changes.map Change.entry)) :=
    follows.settled_version.advance ascending (carries.advances offers Change.entry_same
      (fun _ => Change.entry_removes) follows.nothing (.inr finished))
  exact settled.total (fun entry member => ascending.le_reached member) (Set.mem_univ key)

/-- What the last page leaves out of the rows up to its cursor is deleted later. -/
theorem Follows.places_page (follows : replica.Follows registry scope)
    (carries : batch.Carries (replica.cursor scope) source)
    (offers : replica.log.Offers (replica.cursor scope) source) (finished : batch.hasMore = false)
    (key : RowKey) :
    KeyedLog.replay replica.device.db.version (batch.changes.map Change.entry) key = none ∨
    KeyedLog.replay replica.device.db.version (batch.changes.map Change.entry) key =
      KeyedLog.live ((replica.log.upTo batch.nextCursor.get).map Change.entry) key := by
  rw [follows.finishes carries offers finished]
  rcases last_write Change.entry_same replica.log.ascending key with
    nothing | ⟨last, known, rfl, latest, left⟩
  · exact .inl nothing
  · by_cases passed : last.seq.get ≤ batch.nextCursor.get
    · right
      rw [left]
      exact (replica.log.replay_latest Change.entry_same
        (fun change inside => (KeyedLog.mem_upTo.mp inside).1) (replica.log.ascending.filter _)
        (KeyedLog.mem_upTo.mpr ⟨known, passed⟩) latest).symm
    · left
      have beyond : (replica.cursor scope).get < last.seq.get :=
        (carries.forward offers).trans_lt (Nat.lt_of_not_le passed)
      rcases offers.complete last known latest beyond with source | ⟨deleted, _⟩
      · rw [← carries.finished finished] at source
        exact absurd ((carries.ordered offers).covered last source) passed
      · exact left.trans (Change.entry_removes deleted)

/-! ### What is accepted -/

/-- A replica that goes on with a log that only appends accepts every batch of it. -/
theorem Follows.accepts_pull (follows : replica.Follows registry scope)
    (joined : replica.joined = true)
    (current : ∀ change ∈ replica.log.changes, change.Current registry)
    (appends : AppendsOnly (fun change => registry.classOf change.entity) (fun _ => none)
      replica.log.changes) (pulls : replica.log.Pulls scope (replica.cursor scope) batch) :
    (replica.device.applyBatch .none batch).1.isOk = true := by
  have carries := pulls.carries
  refine (follows.accepts_iff carries (replica.log.after_offers _) pulls.placed current
    _ _).mpr ?_
  have read := appends.of_first (replica.log.upTo_begins batch.nextCursor.get)
  rw [carries.continues] at read
  exact (appendsOnly_append.mp read).2.weaken fun key => (follows.placed joined key).symm

/-- A page of latest changes holds one of each row at most. -/
private theorem Boots.distinct {log : ScopeLog} {cursor : Cursor}
    (boots : log.Boots scope cursor batch) :
    batch.changes.Pairwise fun first second => first.key ≠ second.key := by
  have carries := boots.carries
  have ascending := (carries.ordered (log.compacted_offers cursor)).ascending
  refine ascending.imp_of_mem fun {first second} member other below same => ?_
  obtain ⟨known, latest, _⟩ := ScopeLog.mem_compacted.mp (carries.within.subset member)
  obtain ⟨known', latest', _⟩ := ScopeLog.mem_compacted.mp (carries.within.subset other)
  rw [log.latest_unique known known' latest latest' same] at below
  exact lt_irrefl _ below

/-- Over a log that only appends, a page is accepted exactly if it brings no row back at
another version. -/
theorem Follows.accepts_page_iff (follows : replica.Follows registry scope)
    (current : ∀ change ∈ replica.log.changes, change.Current registry)
    (appends : AppendsOnly (fun change => registry.classOf change.entity) (fun _ => none)
      replica.log.changes) {response : BootstrapResponse}
    (boots : replica.log.Boots scope (replica.cursor scope) response.toBatch) :
    (replica.device.applyBootstrap .none response).1.isOk = true ↔
      Spares registry replica (.page response) := by
  have carries := boots.carries
  have offers := replica.log.compacted_offers (replica.cursor scope)
  have ordered := carries.ordered offers
  refine (follows.accepts_iff carries offers boots.placed current _ _).trans ?_
  rw [appendsOnly_iff_of_distinct (Boots.distinct boots)]
  refine forall₂_congr fun late member => forall₂_congr fun written appendOnly => ?_
  rw [follows.version]
  constructor
  · intro respects early received row created latest _ _ _ _ _ _
    have valid : ∀ change ∈ replica.received, change.validate = .ok () := fun change member =>
      replica.log.valid change (follows.drawn change member).1
    have left := ScopeLog.live_latest ⟨replica.received, follows.ascending, valid⟩
      Change.entry_same received latest
    refine respects early.rowVersion ?_
    rw [← row, left]
    simp [Change.entry, Change.held, created]
  · intro spared version held
    rcases last_write Change.entry_same follows.ascending late.key with
      nothing | ⟨early, received, row, latest, left⟩
    · rw [nothing] at held
      cases held
    · rw [left] at held
      obtain ⟨created, rfl⟩ : early.op = .upsert ∧ early.rowVersion = version := by
        cases op : early.op <;> simp_all [Change.entry, Change.held]
      obtain ⟨known, passed⟩ := follows.drawn early received
      have known' := ScopeLog.mem_after.mp (offers.within.subset (carries.within.subset member))
      have before := passed.trans_lt known'.2
      by_cases gone : ∃ removed ∈ replica.log.changes, removed.key = late.key ∧
          removed.op = .delete ∧ early.seq.get < removed.seq.get ∧ removed.seq.get < late.seq.get
      · obtain ⟨removed, inside, row', deleted, above, below⟩ := gone
        exact spared early received row created latest removed inside row' deleted above below
      · -- without a delete in between the log itself would overwrite the row
        refine appends.kept replica.log.ascending known known'.1 row.symm before created written
          (fun change _ same => ?_) fun removed inside same above below deleted =>
            gone ⟨removed, inside, same.trans row, deleted, above, below⟩
        have entity : change.entity = late.entity := congrArg Prod.fst (same.trans row)
        rw [entity]
        exact appendOnly

/-! ### Whole runs -/

omit [Hashing] in
theorem take_log (replica : Replica) (batch : Batch) (outcome : Except ApplyError Applied × Device)
    (joined : Bool) : (replica.take batch outcome joined).log = replica.log := by
  unfold take
  split <;> rfl

omit [Hashing] in
/-- A refusal is remembered. -/
theorem take_refused (replica : Replica) (batch : Batch)
    (outcome : Except ApplyError Applied × Device) (joined : Bool) :
    (replica.take batch outcome joined).refused = false ↔
      replica.refused = false ∧ outcome.1.isOk = true := by
  unfold take
  cases outcome.1 <;> simp [Except.isOk, Except.toBool]

/-- Steps only ever add to the log. -/
theorem Step.longer {before after : Replica} (step : Step scope before label after) :
    before.log.changes <+: after.log.changes := by
  cases step with
  | grow log longer => exact longer
  | page response joining boots =>
    rw [take_log]
  | pull batch joined pulls =>
    rw [take_log]

/-- A replica that applied its log from the start, every change of it. -/
structure Pulled (registry : Registry) (scope : ScopeId) (replica : Replica) : Prop where
  follows : replica.Follows registry scope
  joined : replica.joined = true
  whole : replica.received = replica.log.upTo (replica.cursor scope).get
  appends : AppendsOnly (fun change => registry.classOf change.entity) (fun _ => none)
    replica.received

theorem Follows.pulls (follows : replica.Follows registry scope) (joined : replica.joined = true)
    (current : ∀ change ∈ replica.log.changes, change.Current registry)
    (pulls : replica.log.Pulls scope (replica.cursor scope) batch)
    (accepted : (replica.device.applyBatch .none batch).1.isOk = true) :
    ∃ plan, replica.take batch (replica.device.applyBatch .none batch) true =
        replica.commit batch plan true ∧
      (replica.commit batch plan true).Follows registry scope ∧
      (replica.commit batch plan true).cursor scope = batch.nextCursor := by
  have carries := pulls.carries
  have served := pulls.placed
  subst served
  obtain ⟨plan, plans, taken⟩ := follows.take_accepted rfl accepted
  refine ⟨plan, taken, follows.committed carries (replica.log.after_offers _) current plans
    fun _ => follows.places_pull joined carries, ?_⟩
  rw [cursor_eq, commit_state]

theorem Follows.boots (follows : replica.Follows registry scope)
    (current : ∀ change ∈ replica.log.changes, change.Current registry) {response : BootstrapResponse}
    (boots : replica.log.Boots scope (replica.cursor scope) response.toBatch)
    (accepted : (replica.device.applyBootstrap .none response).1.isOk = true) :
    (replica.take response.toBatch (replica.device.applyBootstrap .none response)
      (!response.hasMore)).Follows registry scope := by
  have carries := boots.carries
  have offers := replica.log.compacted_offers (replica.cursor scope)
  have served := boots.placed
  subst served
  obtain ⟨plan, plans, taken⟩ := follows.take_accepted
    (rfl : replica.device.applyBootstrap .none response = _) accepted
  rw [taken]
  refine follows.committed carries offers current plans fun last => ?_
  rw [Bool.not_eq_true'] at last
  exact follows.places_page carries offers last

theorem Pulled.step {before after : Replica} {target : List Change}
    (current : ∀ change ∈ target, change.Current registry)
    (pulled : before.log.changes <+: target → before.refused = false → before.Pulled registry scope)
    (step : Step scope before label after) (inside : after.log.changes <+: target)
    (accepted : after.refused = false) : after.Pulled registry scope := by
  have earlier := step.longer.trans inside
  have current : ∀ change ∈ before.log.changes, change.Current registry :=
    fun change member => current change (earlier.subset member)
  cases step with
  | grow log longer =>
    have pulled := pulled earlier accepted
    refine ⟨pulled.follows.grow longer, pulled.joined, ?_, pulled.appends⟩
    exact pulled.whole.trans (pulled.follows.marks.upTo_grow longer).symm
  | page response joining boots =>
    obtain ⟨calm, _⟩ := (take_refused ..).mp accepted
    rw [(pulled earlier calm).joined] at joining
    cases joining
  | pull batch joined pulls =>
    obtain ⟨calm, accepted⟩ := (take_refused ..).mp accepted
    have pulled := pulled earlier calm
    obtain ⟨plan, taken, follows, reached⟩ :=
      pulled.follows.pulls joined current pulls accepted
    have appends := (pulled.follows.accepts_iff pulls.carries (before.log.after_offers _)
      pulls.placed current _ _).mp accepted
    rw [taken]
    refine ⟨follows, rfl, ?_, ?_⟩
    · rw [reached]
      change before.received ++ batch.changes = before.log.upTo _
      rw [pulls.carries.continues, pulled.whole]
    · refine appendsOnly_append.mpr ⟨pulled.appends, ?_⟩
      rw [pulled.follows.version] at appends
      exact appends

/-- A joining replica that is spared is never refused. -/
theorem Follows.step {before after : Replica} {target : List Change}
    (current : ∀ change ∈ target, change.Current registry)
    (appends : AppendsOnly (fun change => registry.classOf change.entity) (fun _ => none) target)
    (kept : before.log.changes <+: target → before.Follows registry scope ∧ before.refused = false)
    (step : Transition.Guarded (Step scope) (Spares registry) before label after)
    (inside : after.log.changes <+: target) :
    after.Follows registry scope ∧ after.refused = false := by
  obtain ⟨spares, step⟩ := step
  have earlier := step.longer.trans inside
  obtain ⟨follows, calm⟩ := kept earlier
  have current : ∀ change ∈ before.log.changes, change.Current registry :=
    fun change member => current change (earlier.subset member)
  have appends := appends.of_first earlier
  cases step with
  | grow log longer => exact ⟨follows.grow longer, calm⟩
  | page response joining boots =>
    have accepted := (follows.accepts_page_iff current appends boots).mpr spares
    exact ⟨follows.boots current boots accepted, (take_refused ..).mpr ⟨calm, accepted⟩⟩
  | pull batch joined pulls =>
    have accepted := follows.accepts_pull joined current appends pulls
    obtain ⟨plan, taken, follows, _⟩ := follows.pulls joined current pulls accepted
    refine ⟨taken ▸ follows, (take_refused ..).mpr ⟨calm, accepted⟩⟩

theorem Pulled.of_run {migrations : Migrations} {log : ScopeLog} {labels : List Label}
    {pulled : Replica}
    (run : Transition.Run (Step scope) (fresh registry migrations log true) labels pulled)
    (current : ∀ change ∈ pulled.log.changes, change.Current registry)
    (accepted : pulled.refused = false) : pulled.Pulled registry scope := by
  have start : (fresh registry migrations log true).Pulled registry scope := by
    refine ⟨fresh_follows registry migrations scope log true, rfl, ?_, trivial⟩
    exact (List.filter_eq_nil_iff.mpr fun change _ => by
      have positive := change.seq.lower
      simp only [decide_eq_true_eq]
      exact Nat.not_le.mpr positive).symm
  have steps : ∀ before label after,
      (before.log.changes <+: pulled.log.changes → before.refused = false →
        before.Pulled registry scope) → Step scope before label after →
      after.log.changes <+: pulled.log.changes → after.refused = false →
        after.Pulled registry scope :=
    fun before label after kept step => Pulled.step current kept step
  exact run.invariant steps (fun _ _ => start) (List.prefix_refl _) accepted

theorem Follows.of_run {migrations : Migrations} {log : ScopeLog} {labels : List Label}
    {booted : Replica}
    (run : Transition.Run (Transition.Guarded (Step scope) (Spares registry))
      (fresh registry migrations log false) labels booted)
    (current : ∀ change ∈ booted.log.changes, change.Current registry)
    (appends : AppendsOnly (fun change => registry.classOf change.entity) (fun _ => none)
      booted.log.changes) : booted.Follows registry scope ∧ booted.refused = false := by
  have steps : ∀ before label after,
      (before.log.changes <+: booted.log.changes →
        before.Follows registry scope ∧ before.refused = false) →
      Transition.Guarded (Step scope) (Spares registry) before label after →
      after.log.changes <+: booted.log.changes →
        after.Follows registry scope ∧ after.refused = false :=
    fun before label after kept step => Follows.step current appends kept step
  exact run.invariant steps
    (fun _ => ⟨fresh_follows registry migrations scope log false, rfl⟩) (List.prefix_refl _)

/-- Replicas that reached the end of one log hold the same rows, cursor and digest. -/
theorem Follows.agree {other : Replica} (first : replica.Follows registry scope)
    (second : other.Follows registry scope) (same : other.log = replica.log)
    (ended : replica.log.after (replica.cursor scope) = [])
    (ended' : other.log.after (other.cursor scope) = []) :
    other.device.db.rows = replica.device.db.rows ∧
      other.device.engine.scopeStateOr scope = replica.device.engine.scopeStateOr scope ∧
      other.device.db.position scope = replica.device.db.position scope := by
  have total {replica : Replica} (follows : replica.Follows registry scope)
      (ended : replica.log.after (replica.cursor scope) = []) : replica.device.db.holding =
        KeyedLog.live (replica.log.changes.map Change.stored) := by
    funext key
    refine follows.settled.total (fun entry member => ?_) (Set.mem_univ key)
    obtain ⟨change, known, rfl⟩ := List.mem_map.mp member
    rw [← (follows.marks.ends ended).1] at known
    exact (KeyedLog.mem_upTo.mp known).2
  have holding : other.device.db.holding = replica.device.db.holding := by
    rw [total second ended', total first ended, same]
  have version : other.device.db.version = replica.device.db.version := by
    funext key
    exact congrArg (Option.map _) (congrFun holding key)
  have cursor : other.cursor scope = replica.cursor scope := by
    apply BoundedNum.ext
    rw [(second.marks.ends ended').2, (first.marks.ends ended).2, same]
  have digest : (other.device.engine.scopeStateOr scope).digest =
      (replica.device.engine.scopeStateOr scope).digest := by
    apply congrArg ScopeDigest.mk
    have covers {replica : Replica} (follows : replica.Follows registry scope) :
        ∀ change ∈ replica.received,
          change.key ∈ (replica.log.changes.map Change.key).toFinset := fun change member =>
      List.mem_toFinset.mpr (List.mem_map_of_mem (follows.drawn change member).1)
    rw [first.balance _ (covers first), second.balance _ (covers second), same, version]
  have state : other.device.engine.scopeStateOr scope =
      replica.device.engine.scopeStateOr scope := by
    rw [cursor_eq, cursor_eq] at cursor
    cases left : other.device.engine.scopeStateOr scope
    cases right : replica.device.engine.scopeStateOr scope
    simp_all
  refine ⟨Finmap.ext_lookup (congrFun holding), state, ?_⟩
  rw [← first.mirrors scope first.trusted, ← second.mirrors scope second.trusted, state]

/-- Where a device that pulls a log from the start is never refused, one that joins it
through the compacted log is refused on those pages alone that bring back an append-only
row at another version; spared of them it is refused nothing, and ends where the other does. -/
theorem bootstrap_follows_pull (migrations : Migrations) {log log' : ScopeLog}
    {labels labels' : List Label} {pulled booted : Replica}
    (pulls : Transition.Run (Step scope) (fresh registry migrations log true) labels pulled)
    (accepted : pulled.refused = false) (ended : pulled.log.after (pulled.cursor scope) = [])
    (current : ∀ change ∈ pulled.log.changes, change.Current registry)
    (boots : Transition.Run (Transition.Guarded (Step scope) (Spares registry))
      (fresh registry migrations log' false) labels' booted)
    (same : booted.log = pulled.log) :
    booted.refused = false ∧
      (∀ response : BootstrapResponse, booted.joined = false →
        booted.log.Boots scope (booted.cursor scope) response.toBatch →
        ((booted.device.applyBootstrap .none response).1.isOk = true ↔
          Spares registry booted (.page response))) ∧
      (∀ batch : Batch, booted.joined = true → booted.log.Pulls scope (booted.cursor scope) batch →
        (booted.device.applyBatch .none batch).1.isOk = true) ∧
      (booted.log.after (booted.cursor scope) = [] →
        booted.device.db.rows = pulled.device.db.rows ∧
        booted.device.engine.scopeStateOr scope = pulled.device.engine.scopeStateOr scope ∧
        booted.device.db.position scope = pulled.device.db.position scope) := by
  have reading := Pulled.of_run pulls current accepted
  have whole := reading.follows.marks.ends ended
  have appends := reading.appends
  rw [reading.whole, whole.1, ← same] at appends
  have current : ∀ change ∈ booted.log.changes, change.Current registry := by
    rw [same]
    exact current
  obtain ⟨follows, calm⟩ := Follows.of_run boots current appends
  refine ⟨calm, fun response _ offered => follows.accepts_page_iff current appends offered,
    fun batch joined offered => follows.accepts_pull joined current appends offered,
    fun ended' => reading.follows.agree follows same ended ended'⟩

/-! ### Asking for the next page -/

/-- A replica that has applied its next page of the compacted log. -/
def bootNext (request : PageRequest) (protocol : ProtocolVersion) (scope : ScopeId)
    (replica : Replica) : Replica :=
  let response := replica.log.bootstrap request protocol scope (replica.cursor scope)
  replica.take response.toBatch (replica.device.applyBootstrap .none response) (!response.hasMore)

/-- A replica that has applied its next batch of the log. -/
def pullNext (request : PageRequest) (scope : ScopeId) (replica : Replica) : Replica :=
  let batch := replica.log.pull request scope (replica.cursor scope)
  replica.take batch (replica.device.applyBatch .none batch) true

omit [Hashing] in
private theorem spares_blank {label : Label} (blank : replica.received = []) :
    Spares registry replica label := by
  cases label with
  | grow => trivial
  | pull batch => trivial
  | page response =>
    intro late _ _ _ early received
    rw [blank] at received
    cases received

theorem bootNext_log (request : PageRequest) (protocol : ProtocolVersion) (scope : ScopeId)
    (replica : Replica) : (replica.bootNext request protocol scope).log = replica.log := take_log ..

theorem pullNext_log (request : PageRequest) (scope : ScopeId) (replica : Replica) :
    (replica.pullNext request scope).log = replica.log := take_log ..

theorem bootNext_step {request : PageRequest} {limit : Int64} (asks : request.Asks limit)
    (protocol : ProtocolVersion) (scope : ScopeId) (joining : replica.joined = false) :
    Step scope replica
      (.page (replica.log.bootstrap request protocol scope (replica.cursor scope)))
      (replica.bootNext request protocol scope) :=
  .page replica _ joining (replica.log.bootstrap_boots asks protocol scope _)

theorem pullNext_step {request : PageRequest} {limit : Int64} (asks : request.Asks limit)
    (scope : ScopeId) (joined : replica.joined = true) :
    Step scope replica (.pull (replica.log.pull request scope (replica.cursor scope)))
      (replica.pullNext request scope) :=
  .pull replica _ joined (replica.log.pull_pulls asks scope _)

/-- A replica that has nothing yet is spared of its first page. -/
theorem bootNext_spared {request : PageRequest} {limit : Int64} (asks : request.Asks limit)
    (registry : Registry) (protocol : ProtocolVersion) (scope : ScopeId)
    (joining : replica.joined = false) (blank : replica.received = []) :
    Transition.Guarded (Step scope) (Spares registry) replica
      (.page (replica.log.bootstrap request protocol scope (replica.cursor scope)))
      (replica.bootNext request protocol scope) :=
  ⟨spares_blank blank, bootNext_step asks protocol scope joining⟩

theorem pullNext_spared {request : PageRequest} {limit : Int64} (asks : request.Asks limit)
    (registry : Registry) (scope : ScopeId) (joined : replica.joined = true) :
    Transition.Guarded (Step scope) (Spares registry) replica
      (.pull (replica.log.pull request scope (replica.cursor scope)))
      (replica.pullNext request scope) :=
  ⟨trivial, pullNext_step asks scope joined⟩

end Replica

namespace Sample

open Replica

/-- Notes of the one scope that are only ever added. -/
def journal : Registry := Registry.new.registerEntity ⟨note, scope, .appendOnly, schema⟩

def removedA : Change :=
  { noteA with seq := 3, op := .delete, snapshot := none }

/-- The first note once more, at another version. -/
def restoredA : Change := upsert 4 first 2

/-- The hashes of the batches of these changes, and of their rows. -/
abbrev journalHashes : Hashing := .ofTable
  [(Canonical.toVec [noteA], 0x8105e432325338857bfee42c5b6d7832),
    (Canonical.toVec [noteA, noteB], 0xea8ad53d371a7f65277e5d53c1e2f609),
    (Canonical.toVec [noteB, restoredA], 0xb7d6ca6ce607f8702ff5e2a2a94c0c14),
    (Canonical.toVec [removedA, restoredA], 0x4fb0c480c8d2fab69a2ac333c309683d),
    (rowBytes note first noteA.rowVersion, 0x56431b2e5d10461c8b074367b4d45f4b),
    (rowBytes note first restoredA.rowVersion, 0x9659be34d586deea639fffc57c9a9245),
    (rowBytes note second noteB.rowVersion, 0xf0e2ba6f6744f3823ab654c4a0959199)] []

attribute [local instance] journalHashes

def twoNotes : ScopeLog where
  changes := [noteA, noteB]
  ascending := by unfold KeyedLog.Ascending; decide
  valid := by simp [noteA, noteB, upsert, Change.validate]

/-- The log after the first note was deleted and came back. -/
def reopened : ScopeLog where
  changes := [noteA, noteB, removedA, restoredA]
  ascending := by unfold KeyedLog.Ascending; decide
  valid := by simp [noteA, noteB, removedA, restoredA, upsert, Change.validate]

def inTwos : PageRequest := ⟨2, 4096, List.length⟩

def oneFirst : PageRequest := ⟨1, 4096, List.length⟩

def version : ProtocolVersion := 1

def pulledNotes : Replica :=
  ((fresh journal Migrations.new reopened true).pullNext inTwos scope).pullNext inTwos scope

/-- Joined by one page with both notes before the first was deleted. -/
def joinedNotes : Replica :=
  { (fresh journal Migrations.new twoNotes false).bootNext inTwos version scope with
    log := reopened }

/-- Still joining, with one note, when it was deleted and came back. -/
def joiningNotes : Replica :=
  { (fresh journal Migrations.new twoNotes false).bootNext oneFirst version scope with
    log := reopened }

private theorem inTwos_asks : inTwos.Asks 2 := ⟨by decide, by decide, by decide⟩

private theorem pulledNotes_run : ∃ labels, Transition.Run (Step scope)
    (fresh journal Migrations.new reopened true) labels pulledNotes := by
  have joined :
      ((fresh journal Migrations.new reopened true).pullNext inTwos scope).joined = true := by
    decide +kernel
  exact ⟨_, .next (pullNext_step inTwos_asks scope rfl)
    (.next (pullNext_step inTwos_asks scope joined) .done)⟩

private theorem pulledNotes_accepted : pulledNotes.refused = false ∧
    pulledNotes.log.after (pulledNotes.cursor scope) = [] := by
  have ended : (pulledNotes.log.after (pulledNotes.cursor scope)).isEmpty = true := by
    decide +kernel
  exact ⟨by decide +kernel, List.isEmpty_iff.mp ended⟩

private theorem reopened_current : ∀ change ∈ reopened.changes, change.Current journal := by
  intro change member target known
  have registered : journal.schemaVersionOf note = some schema := by decide +kernel
  simp only [reopened, List.mem_cons, List.not_mem_nil, or_false] at member
  rcases member with rfl | rfl | rfl | rfl
  all_goals exact .inl (Option.some.inj (registered.symm.trans known))

private theorem reopened_longer (request : PageRequest) :
    ((fresh journal Migrations.new twoNotes false).bootNext request version scope).log.changes <+:
      reopened.changes := by
  rw [bootNext_log]
  exact ⟨[removedA, restoredA], rfl⟩

private theorem pulledNotes_log : pulledNotes.log = reopened := by
  rw [pulledNotes, pullNext_log, pullNext_log]
  rfl

theorem joinedNotes_agree : ∃ booted : Replica,
    booted.refused = false ∧ booted.device.db.rows = pulledNotes.device.db.rows := by
  obtain ⟨_, pulls⟩ := pulledNotes_run
  have joined : joinedNotes.joined = true := by decide +kernel
  have ended : ((joinedNotes.pullNext inTwos scope).log.after
      ((joinedNotes.pullNext inTwos scope).cursor scope)).isEmpty = true := by
    decide +kernel
  -- one page while nothing is held, one growth, and the rest of the log
  have grown : Transition.Guarded (Step scope) (Spares journal)
      ((fresh journal Migrations.new twoNotes false).bootNext inTwos version scope) .grow
      joinedNotes := ⟨trivial, .grow _ reopened (reopened_longer inTwos)⟩
  have first := @bootNext_spared _ (fresh journal Migrations.new twoNotes false) _ _ inTwos_asks
    journal version scope rfl rfl
  have boots := Transition.Run.next first
    (.next grown (.single (pullNext_spared inTwos_asks journal scope joined)))
  have same : (joinedNotes.pullNext inTwos scope).log = pulledNotes.log := by
    rw [pulledNotes_log, pullNext_log]
    rfl
  obtain ⟨calm, _, _, agree⟩ := bootstrap_follows_pull Migrations.new pulls
    pulledNotes_accepted.1 pulledNotes_accepted.2 (pulledNotes_log ▸ reopened_current) boots same
  exact ⟨_, calm, (agree (List.isEmpty_iff.mp ended)).1⟩

/-- The note comes back on the second page, and the page is refused. -/
theorem joiningNotes_refused :
    (∃ labels, Transition.Run (Step scope)
      (fresh journal Migrations.new reopened true) labels pulledNotes) ∧
    pulledNotes.refused = false ∧ pulledNotes.log.after (pulledNotes.cursor scope) = [] ∧
    (∀ change ∈ pulledNotes.log.changes, change.Current journal) ∧
    (∃ labels, Transition.Run (Step scope) (fresh journal Migrations.new twoNotes false) labels
      (joiningNotes.bootNext inTwos version scope)) ∧
    (joiningNotes.bootNext inTwos version scope).log = pulledNotes.log ∧
    (joiningNotes.bootNext inTwos version scope).refused = true := by
  have asks : oneFirst.Asks 1 := ⟨by decide, by decide, by decide⟩
  have joining : joiningNotes.joined = false := by decide +kernel
  refine ⟨pulledNotes_run, pulledNotes_accepted.1, pulledNotes_accepted.2,
    pulledNotes_log ▸ reopened_current, ?_, ?_, by decide +kernel⟩
  · exact ⟨_, .next (bootNext_step asks version scope rfl)
      (.next (.grow _ reopened (reopened_longer oneFirst))
        (.single (bootNext_step inTwos_asks version scope joining)))⟩
  · rw [pulledNotes_log, bootNext_log]
    rfl

end Sample

end CredSync
