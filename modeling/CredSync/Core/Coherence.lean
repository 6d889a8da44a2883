import CredSync.Core.Memory

/-! Coherence of a scope's digest with its rows: over every run of calls into
the engine, whatever storage does to each transaction, the stored digest is the
digest of the stored rows, and memory holds the stored position unless it knows
that it may not. -/

namespace CredSync

section Digest

variable [Hashing]

/-- The rows of a set of entities, as `ScopeDigest::from_rows` takes them. -/
def Db.rowsOf (db : Db) (entities : Finset EntityName) :
    Multiset (EntityName × EntityId × RowVersion) :=
  (db.rows.retain fun key => key.1 ∈ entities).entries.map fun entry =>
    (entry.1.1, entry.1.2, entry.2.rowVersion)

/-- The digest of a set of entities computed from scratch. -/
def Db.digestOver (db : Db) (entities : Finset EntityName) : ScopeDigest :=
  ScopeDigest.fromRows (db.rowsOf entities)

/-- The digest is a running total over any keys that cover the stored rows. -/
theorem Db.digestOver_raw (db : Db) (entities : Finset EntityName) {keys : Finset RowKey}
    (covers : db.rows.keys ⊆ keys) :
    (db.digestOver entities).raw =
      KeyedLog.weigh versionHash (keys.filter fun key => key.1 ∈ entities) db.version := by
  have total : (db.digestOver entities).raw = Table.total
      (fun key (row : StoredRow) => versionHash key row.rowVersion)
      (db.rows.retain fun key => key.1 ∈ entities) := by
    rw [digestOver, ScopeDigest.fromRows_raw, rowsOf, Multiset.map_map]
    rfl
  have inside : (db.rows.retain fun key => key.1 ∈ entities).keys ⊆
      keys.filter fun key => key.1 ∈ entities := by
    intro key member
    obtain ⟨row, found⟩ := Finmap.mem_iff.mp (Finmap.mem_keys.mp member)
    rw [Table.lookup_retain] at found
    split at found
    · rename_i passes
      exact Finset.mem_filter.mpr ⟨covers (Finmap.mem_keys.mpr (Finmap.mem_of_lookup_eq_some found)),
        of_decide_eq_true passes⟩
    · cases found
  rw [total, Table.total_eq_sum _ _ _ inside]
  apply Finset.sum_congr rfl
  intro key member
  have passes := (Finset.mem_filter.mp member).2
  rw [Table.share, Table.lookup_retain, decide_eq_true passes, if_pos rfl, KeyedLog.share, version]
  cases db.rows.lookup key <;> rfl

theorem Db.digestOver_congr {db db' : Db} {entities : Finset EntityName}
    (same : ∀ key, key.1 ∈ entities → db'.version key = db.version key) :
    db'.digestOver entities = db.digestOver entities := by
  have raw : (db'.digestOver entities).raw = (db.digestOver entities).raw := by
    have first : db.rows.keys ⊆ db.rows.keys ∪ db'.rows.keys := Finset.subset_union_left
    have second : db'.rows.keys ⊆ db.rows.keys ∪ db'.rows.keys := Finset.subset_union_right
    rw [db.digestOver_raw entities first, db'.digestOver_raw entities second]
    exact KeyedLog.weigh_congr _ _ fun key member => same key (Finset.mem_filter.mp member).2
  exact congrArg ScopeDigest.mk raw

/-- What storage reports for a scope: the digest of no rows until it was synced. -/
def Db.storedDigest (db : Db) (scope : ScopeId) : HexString :=
  ((db.stored scope).map (·.digest)).getD ScopeDigest.empty.toHex

def Db.storedCursor (db : Db) (scope : ScopeId) : Cursor :=
  ((db.stored scope).map (·.cursor)).getD Cursor.start

/-- Every stored digest is the digest of the scope's stored rows. -/
def Db.Coherent (db : Db) (registry : Registry) : Prop :=
  ∀ scope, db.storedDigest scope = (db.digestOver (registry.entitiesOf scope)).toHex

variable {db : Db} {registry : Registry} {device : Device} {batch : Batch} {plan : Plan}

/-- What a restart reads back is the digest of the rows. -/
theorem Db.Coherent.position (coherent : db.Coherent registry) (scope : ScopeId) :
    db.position scope = ⟨db.storedCursor scope, db.digestOver (registry.entitiesOf scope)⟩ := by
  have digest := coherent scope
  rw [Db.storedDigest] at digest
  rw [Db.position, Db.storedCursor]
  cases stored : db.stored scope with
  | none =>
    rw [stored] at digest
    rw [← ScopeDigest.toHex_injective digest]
    rfl
  | some position =>
    rw [stored, Option.map_some, Option.getD_some] at digest
    rw [Option.map_some, Option.getD_some, Option.map_some, Option.getD_some,
      ← ScopeDigest.restored_toHex, ← digest]

omit [Hashing] in
theorem Db.storedDigest_congr {db' : Db} {scope : ScopeId}
    (cursors : db'.cursors.lookup scope = db.cursors.lookup scope)
    (digests : db'.digests.lookup scope = db.digests.lookup scope) :
    db'.storedDigest scope = db.storedDigest scope := by
  rw [storedDigest, storedDigest, stored, stored, cursors, digests]

omit [Hashing] in
theorem Db.storedDigest_written {digest : HexString} {scope : ScopeId}
    (cursor : db.cursors.lookup scope = some reached)
    (written : db.digests.lookup scope = some digest) : db.storedDigest scope = digest := by
  rw [storedDigest, stored, cursor, written]
  rfl

theorem Db.Coherent.frame {db' : Db} (coherent : db.Coherent registry)
    (rows : db'.rows = db.rows) (cursors : db'.cursors = db.cursors)
    (digests : db'.digests = db.digests) : db'.Coherent registry := by
  intro scope
  have kept : db'.storedDigest scope = db.storedDigest scope :=
    Db.storedDigest_congr (by rw [cursors]) (by rw [digests])
  rw [kept, coherent scope]
  exact congrArg ScopeDigest.toHex
    (Db.digestOver_congr fun key _ => by rw [Db.version, Db.version, rows]).symm

/-- A batch of one scope's entities, each change landing, keeps every digest
equal to its rows. -/
theorem Db.Coherent.applied (coherent : device.db.Coherent device.engine.registry)
    (plans : device.Plans batch compareDigest rebuilding plan)
    (mirrored : device.engine.scopeStateOr batch.scope = device.db.position batch.scope)
    (owned : ∀ change ∈ batch.changes,
      device.engine.registry.scopeOf change.entity = some batch.scope)
    (landing : ∀ change ∈ batch.changes, device.engine.lands change = true) :
    (device.db.staged plan.ops).Coherent device.engine.registry := by
  have versions : (device.db.staged plan.ops).version =
      KeyedLog.replay device.db.version (batch.changes.map Change.entry) := by
    rw [plans.version, List.filter_eq_self.mpr landing]
  intro scope
  by_cases here : scope = batch.scope
  · subst here
    let keys := device.db.rows.keys ∪ (device.db.staged plan.ops).rows.keys ∪
      (batch.changes.map Change.key).toFinset
    let owners := keys.filter fun key => key.1 ∈ device.engine.registry.entitiesOf batch.scope
    have before : device.db.rows.keys ⊆ keys :=
      Finset.subset_union_left.trans Finset.subset_union_left
    have after : (device.db.staged plan.ops).rows.keys ⊆ keys :=
      Finset.subset_union_right.trans Finset.subset_union_left
    have changed : ∀ change ∈ batch.changes, change.key ∈ owners := by
      intro change member
      refine Finset.mem_filter.mpr ⟨Finset.mem_union_right _ ?_,
        Registry.mem_entitiesOf.mpr (owned change member)⟩
      exact List.mem_toFinset.mpr (List.mem_map_of_mem member)
    have balance := plans.balance owners changed
    rw [← versions, ← Db.digestOver_raw _ _ after, mirrored, coherent.position,
      ← Db.digestOver_raw _ _ before, sub_self, sub_eq_zero] at balance
    rw [Db.storedDigest_written (by rw [plans.cursors, Finmap.lookup_insert])
      (by rw [plans.digests, Finmap.lookup_insert])]
    exact congrArg ScopeDigest.toHex (congrArg ScopeDigest.mk balance)
  · have untouched : ∀ key : RowKey, key.1 ∈ device.engine.registry.entitiesOf scope →
        (device.db.staged plan.ops).version key = device.db.version key := by
      intro key inside
      rw [versions]
      apply KeyedLog.replay_absent
      intro entry member same
      obtain ⟨change, carried, rfl⟩ := List.mem_map.mp member
      have mapped := Registry.mem_entitiesOf.mp inside
      rw [← same, Change.entry, Change.key, owned change carried] at mapped
      exact here (Option.some.inj mapped).symm
    have kept : (device.db.staged plan.ops).storedDigest scope = device.db.storedDigest scope :=
      Db.storedDigest_congr (by rw [plans.cursors, Finmap.lookup_insert_of_ne _ here])
        (by rw [plans.digests, Finmap.lookup_insert_of_ne _ here])
    rw [kept, coherent scope, Db.digestOver_congr untouched]

/-- A rebuild empties a scope and its digest together. -/
theorem Db.Coherent.cleared (coherent : db.Coherent registry) (scope : ScopeId) :
    (db.staged (registry.rebootstrapOps scope)).Coherent registry := by
  have version : ∀ key : RowKey, (db.staged (registry.rebootstrapOps scope)).version key =
      if registry.scopeOf key.1 = some scope then none else db.version key := by
    intro key
    change ((db.staged (registry.rebootstrapOps scope)).holding key).map _ = _
    rw [Db.cleared_holding]
    split <;> rfl
  intro other
  by_cases here : other = scope
  · subst here
    have emptied : (db.staged (registry.rebootstrapOps other)).digestOver
        (registry.entitiesOf other) = ScopeDigest.empty := by
      apply congrArg ScopeDigest.mk
      refine (Db.digestOver_raw _ _ (Finset.Subset.refl _)).trans ?_
      apply Finset.sum_eq_zero
      intro key member
      rw [version, if_pos (Registry.mem_entitiesOf.mp (Finset.mem_filter.mp member).2)]
      rfl
    rw [emptied]
    exact Db.storedDigest_written (by rw [Db.cleared_cursors, if_pos rfl])
      (by rw [Db.cleared_digests, if_pos rfl])
  · have kept : ∀ key : RowKey, key.1 ∈ registry.entitiesOf other →
        (db.staged (registry.rebootstrapOps scope)).version key = db.version key := by
      intro key inside
      rw [version, if_neg]
      intro mapped
      exact here (Option.some.inj ((Registry.mem_entitiesOf.mp inside).symm.trans mapped))
    have digest : (db.staged (registry.rebootstrapOps scope)).storedDigest other =
        db.storedDigest other :=
      Db.storedDigest_congr (by rw [Db.cleared_cursors, if_neg here])
        (by rw [Db.cleared_digests, if_neg here])
    rw [digest, coherent other, Db.digestOver_congr kept]

/-! ### Runs -/

/-- The host's side of the contract: a batch or page for a scope carries only
changes of entities registered to it, and every migration they need succeeds. -/
def ClientCall.Admitted (call : ClientCall) (engine : Engine) : Prop :=
  match call with
  | .applyBatch batch => ∀ change ∈ batch.changes,
      engine.registry.scopeOf change.entity = some batch.scope ∧ engine.lands change = true
  | .applyBootstrap response => ∀ change ∈ response.changes,
      engine.registry.scopeOf change.entity = some response.scope ∧ engine.lands change = true
  | _ => True

instance (call : ClientCall) (engine : Engine) : Decidable (call.Admitted engine) :=
  match call with
  | .applyBatch batch => inferInstanceAs (Decidable (∀ change ∈ batch.changes,
      engine.registry.scopeOf change.entity = some batch.scope ∧ engine.lands change = true))
  | .applyBootstrap response => inferInstanceAs (Decidable (∀ change ∈ response.changes,
      engine.registry.scopeOf change.entity = some response.scope ∧ engine.lands change = true))
  | .beginRebootstrap _ | .reloadScope _ | .clearScopeHealth _ | .enqueue _ | .buildPush ..
  | .applyResults _ => isTrue trivial

/-- One call, and what storage does to it. -/
def Device.Calls (before : Device) (label : Faults × ClientCall) (after : Device) : Prop :=
  after = before.call label.1 label.2

private theorem Device.Applies.coherent {result : Except ApplyError Applied} {after : Device}
    (applies : device.Applies batch compareDigest rebuilding (result, after))
    (coherent : device.db.Coherent device.engine.registry) (mirrors : device.Mirrors)
    (owned : ∀ change ∈ batch.changes,
      device.engine.registry.scopeOf change.entity = some batch.scope ∧
        device.engine.lands change = true) :
    after.db.Coherent device.engine.registry := by
  cases applies with
  | refused e => exact coherent
  | committed plan trusted plans =>
    exact coherent.applied plans (mirrors _ trusted) (fun change member => (owned change member).1)
      fun change member => (owned change member).2
  | unacknowledged e plan trusted plans =>
    exact coherent.applied plans (mirrors _ trusted) (fun change member => (owned change member).1)
      fun change member => (owned change member).2
  | uncommitted e => exact coherent

theorem Db.Coherent.call (coherent : device.db.Coherent device.engine.registry)
    (mirrors : device.Mirrors) (faults : Faults) (call : ClientCall)
    (admitted : call.Admitted device.engine) :
    (device.call faults call).db.Coherent device.engine.registry := by
  have applied : ∀ batch compareDigest rebuilding, (∀ change ∈ batch.changes,
      device.engine.registry.scopeOf change.entity = some batch.scope ∧
        device.engine.lands change = true) →
      (device.applyChanges faults batch compareDigest rebuilding).2.db.Coherent
        device.engine.registry := by
    intro batch compareDigest rebuilding owned
    have ends := device.applyChanges_applies faults batch compareDigest rebuilding
    have fresh := mirrors.refresh faults batch.scope
    obtain ⟨scopes, suspect, refreshed⟩ := device.refreshIfSuspect_eq faults batch.scope
    rw [refreshed] at ends fresh
    exact ends.coherent coherent fresh owned
  cases call with
  | applyBatch batch => exact applied batch _ _ admitted
  | applyBootstrap response => exact applied response.toBatch _ _ admitted
  | beginRebootstrap scope =>
    change (device.beginRebootstrap faults scope).2.db.Coherent _
    unfold Device.beginRebootstrap
    obtain ⟨outcome, done⟩ | ⟨e, lost | done⟩ := Db.transact_cases faults device.db
      (device.engine.registry.rebootstrapOps scope)
    · simp only [done]
      exact coherent.cleared scope
    · simp only [lost]
      exact coherent
    · simp only [done]
      exact coherent.cleared scope
  | reloadScope scope =>
    have same := device.reloadScope_same faults scope
    obtain ⟨scopes, suspect, refreshed⟩ := device.refreshIfSuspect_eq faults scope
    rw [refreshed] at same
    exact coherent.frame same.rows same.cursors same.digests
  | clearScopeHealth scope =>
    have same := device.clearScopeHealth_same faults scope
    exact coherent.frame same.rows same.cursors same.digests
  | enqueue entry =>
    have same := device.enqueue_same faults entry
    exact coherent.frame same.rows same.cursors same.digests
  | buildPush compressedLen protocol budgetBytes =>
    have same := device.buildPush_same faults compressedLen protocol budgetBytes
    exact coherent.frame same.rows same.cursors same.digests
  | applyResults response =>
    have same := device.applyResults_same faults response
    exact coherent.frame same.rows same.cursors same.digests

/-- What every call keeps. -/
structure Device.Sound (device : Device) (registry : Registry) : Prop where
  registered : device.engine.registry = registry
  coherent : device.db.Coherent registry
  mirrors : device.Mirrors

theorem Device.Sound.call (sound : device.Sound registry) (faults : Faults) (call : ClientCall)
    (admitted : call.Admitted device.engine) : (device.call faults call).Sound registry where
  registered := (device.call_registered faults call).1.trans sound.registered
  coherent := by
    have coherent := sound.coherent
    rw [← sound.registered] at coherent ⊢
    exact coherent.call sound.mirrors faults call admitted
  mirrors := sound.mirrors.call faults call

theorem Device.restart_sound (migrations : Migrations) {scopes : List ScopeId}
    (coherent : db.Coherent registry) (restored : ∀ scope, db.stored scope ≠ none → scope ∈ scopes) :
    (Device.restart registry migrations scopes db).Sound registry := by
  obtain ⟨kept, health, started⟩ := Device.restart_engine registry migrations scopes db
  exact ⟨by rw [started], coherent, Device.restart_mirrors registry migrations restored⟩

/-- Whatever storage does to each transaction of a run, every stored digest is
the digest of the stored rows, and memory holds the stored position of every
scope it does not suspect. -/
theorem coherent_of_run (registry : Registry) (migrations : Migrations) (scopes : List ScopeId)
    (db : Db) (labels : List (Faults × ClientCall)) (device : Device)
    (coherent : db.Coherent registry)
    (restored : ∀ scope, db.stored scope ≠ none → scope ∈ scopes)
    (run : Transition.Run
      (Transition.Guarded Device.Calls fun device label => label.2.Admitted device.engine)
      (Device.restart registry migrations scopes db) labels device) :
    (∀ scope, device.db.storedDigest scope =
        (ScopeDigest.fromRows (device.db.rowsOf (registry.entitiesOf scope))).toHex) ∧
      ∀ scope ∉ device.engine.suspect,
        (device.engine.scopeStateOr scope).cursor = device.db.storedCursor scope ∧
        (device.engine.scopeStateOr scope).digest.toHex = device.db.storedDigest scope := by
  have step : ∀ before label after, Device.Sound before registry →
      Transition.Guarded Device.Calls (fun device label => label.2.Admitted device.engine)
        before label after → Device.Sound after registry := by
    rintro before ⟨faults, call⟩ after sound ⟨admitted, rfl⟩
    exact sound.call faults call admitted
  have sound := run.invariant step (Device.restart_sound migrations coherent restored)
  refine ⟨sound.coherent, fun scope trusted => ?_⟩
  rw [sound.mirrors scope trusted, sound.coherent.position]
  exact ⟨rfl, (sound.coherent scope).symm⟩

end Digest

namespace Sample

attribute [local instance] noteHashes

/-- One change and the digest of the rows it leaves, as a whole walk. -/
def lone (change : Change) (nextCursor : Cursor) (rows : ScopeDigest) : Batch where
  scope := scope
  changes := [change]
  nextCursor := nextCursor
  hasMore := false
  checksum := hexU128 0
  digest := rows.toHex

def firstNote : Batch :=
  lone noteA 1 (ScopeDigest.empty.add note first noteA.rowVersion)

/-- Another row. -/
def secondNote : Batch :=
  lone noteB 2
    ((ScopeDigest.empty.add note first noteA.rowVersion).add note second noteB.rowVersion)

/-- The first batch commits and is reported lost; the scope is reloaded; the second
is lost before it commits. -/
def lies : List (Faults × ClientCall) :=
  [({ verdict := .commitThenLoseAck }, .applyBatch firstNote), (.none, .reloadScope scope),
    ({ verdict := .failBeforeCommit }, .applyBatch secondNote), (.none, .reloadScope scope)]

theorem lies_coherent : ∃ device,
    Transition.Run
      (Transition.Guarded Device.Calls fun device label => label.2.Admitted device.engine)
      (Device.restart notes Migrations.new [scope] {}) lies device ∧
    (device.engine.scopeStateOr scope).cursor.get = 1 ∧
    (device.engine.scopeStateOr scope).digest.toHex =
      (ScopeDigest.fromRows (device.db.rowsOf (notes.entitiesOf scope))).toHex := by
  have followed : (Transition.follow (fun device label => decide (label.2.Admitted device.engine))
      (fun device (label : Faults × ClientCall) => some (device.call label.1 label.2))
      (Device.restart notes Migrations.new [scope] {}) lies).any (fun device =>
        decide ((device.engine.scopeStateOr scope).cursor.get = 1 ∧
          scope ∉ device.engine.suspect)) = true := by
    decide +kernel
  have taken : ∀ (before : Device) (label : Faults × ClientCall) after,
      decide (label.2.Admitted before.engine) = true →
      some (before.call label.1 label.2) = some after →
      Transition.Guarded Device.Calls (fun device label => label.2.Admitted device.engine)
        before label after :=
    fun _ _ _ allowed goes => ⟨of_decide_eq_true allowed, (Option.some.inj goes).symm⟩
  obtain ⟨device, run, test⟩ := Transition.Run.of_follow_any taken followed
  obtain ⟨cursor, trusted⟩ := of_decide_eq_true test
  have kept := coherent_of_run notes Migrations.new [scope] {} lies device (fun _ => rfl)
    (fun other stored => absurd rfl stored) run
  exact ⟨device, run, cursor, ((kept.2 scope trusted).2).trans (kept.1 scope)⟩

end Sample

end CredSync
