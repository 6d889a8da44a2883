import CredSync.Core.Engine
import CredSync.Library.KeyedLog

/-! What one apply can do. Validation accepts exactly the ordered batches above
the cursor; staging turns each change into one op and moves the digest by one
row; and an apply commits its plan, leaves storage alone, or does either and
reports a failure. -/

namespace CredSync

/-- The batches `validate_ordering` lets through at a cursor. -/
structure Batch.Ordered (batch : Batch) (cursor : Nat) : Prop where
  above : ∀ change ∈ batch.changes, cursor < change.seq.get
  valid : ∀ change ∈ batch.changes, change.validate = .ok ()
  ascending : batch.changes.Pairwise fun first second => first.seq.get < second.seq.get
  covered : ∀ change ∈ batch.changes, change.seq.get ≤ batch.nextCursor.get

private theorem validateChanges_ok_iff (cursor : Nat) (previous last : Option Nat)
    (changes : List Change) :
    validateChanges cursor previous changes = .ok last ↔
      (∀ change ∈ changes, cursor < change.seq.get) ∧
      (∀ change ∈ changes, change.validate = .ok ()) ∧
      (∀ bound ∈ previous, ∀ change ∈ changes, bound < change.seq.get) ∧
      (changes.Pairwise fun first second => first.seq.get < second.seq.get) ∧
      last = (changes.getLast?.map fun change => change.seq.get).or previous := by
  induction changes generalizing previous with
  | nil => simp [validateChanges, eq_comm]
  | cons change rest ih =>
    rw [validateChanges]
    by_cases applied : change.seq.get ≤ cursor
    · have refused : ¬ cursor < change.seq.get := Nat.not_lt.mpr applied
      simp [applied, refused]
    by_cases behind : previous.any (change.seq.get ≤ ·) = true
    · obtain ⟨bound, held, below⟩ := Option.any_eq_true _ _ |>.mp behind
      have refused : ¬ bound < change.seq.get := Nat.not_lt.mpr (of_decide_eq_true below)
      simp only [applied, behind, if_false, if_true]
      constructor
      · intro impossible
        cases impossible
      · intro ordered
        exact absurd (ordered.2.2.1 bound held change List.mem_cons_self) refused
    simp only [applied, behind, if_false, Bool.false_eq_true]
    cases valid : change.validate with
    | error e =>
      have refused : ¬ ∀ later ∈ change :: rest, later.validate = .ok () := by
        intro allValid
        rw [allValid change List.mem_cons_self] at valid
        cases valid
      simp only [refused, false_and, and_false, iff_false]
      split <;> exact fun impossible => by cases impossible
    | ok =>
      have ahead : ∀ bound ∈ previous, bound < change.seq.get := by
        intro bound held
        have notBehind := mt (Option.any_eq_true _ _).mpr behind
        exact Nat.lt_of_not_le fun below => notBehind ⟨bound, held, decide_eq_true below⟩
      have final : ((change :: rest).getLast?.map fun change => change.seq.get).or previous =
          (rest.getLast?.map fun change => change.seq.get).or (some change.seq.get) := by
        cases rest with
        | nil => rfl
        | cons next others =>
          rw [List.getLast?_cons_cons, List.getLast?_eq_some_getLast (List.cons_ne_nil next others)]
          rfl
      simp only [ih, final]
      simp only [List.forall_mem_cons, List.pairwise_cons, Option.mem_def, Option.some.injEq,
        forall_eq', valid, true_and]
      constructor
      · rintro ⟨above, allValid, after, ascending, rfl⟩
        exact ⟨⟨Nat.lt_of_not_le applied, above⟩, allValid, fun bound held =>
          ⟨ahead bound held, fun later member => (ahead bound held).trans (after later member)⟩,
          ⟨after, ascending⟩, rfl⟩
      · rintro ⟨⟨_, above⟩, allValid, _, ⟨after, ascending⟩, rfl⟩
        exact ⟨above, allValid, after, ascending, rfl⟩

theorem validateOrdering_ok_iff (batch : Batch) (cursor : Nat) :
    validateOrdering batch cursor = .ok () ↔ batch.Ordered cursor := by
  have walked := validateChanges_ok_iff cursor none
    (batch.changes.getLast?.map fun change => change.seq.get) batch.changes
  constructor
  · intro accepted
    unfold validateOrdering at accepted
    cases checked : validateChanges cursor none batch.changes with
    | error e =>
      rw [checked] at accepted
      cases accepted
    | ok last =>
      obtain ⟨above, valid, _, ascending, rfl⟩ := (validateChanges_ok_iff _ _ _ _).mp checked
      refine ⟨above, valid, ascending, fun change member => ?_⟩
      rw [checked, Option.or_none] at accepted
      obtain ⟨others, final, same⟩ := List.eq_nil_or_concat batch.changes |>.resolve_left
        (List.ne_nil_of_mem member)
      simp only [same, List.concat_eq_append, List.getLast?_append, List.getLast?_singleton,
        Option.some_or, Option.map_some] at accepted
      split at accepted
      · cases accepted
      · rename_i covers
        rw [same, List.concat_eq_append, List.mem_append, List.mem_singleton] at member
        rcases member with earlier | rfl
        · rw [same, List.concat_eq_append, List.pairwise_append] at ascending
          exact ((ascending.2.2 change earlier final List.mem_cons_self).le).trans
            (Nat.le_of_not_lt covers)
        · exact Nat.le_of_not_lt covers
  · intro ordered
    have checked := walked.mpr ⟨ordered.above, ordered.valid, by simp, ordered.ascending,
      (Option.or_none ..).symm⟩
    unfold validateOrdering
    rw [checked]
    cases last : batch.changes.getLast? with
    | none => rfl
    | some final =>
      have covers := ordered.covered final (List.mem_of_getLast? last)
      exact if_neg (Nat.not_lt.mpr covers)

/-! ### Staging -/

/-- The version a change leaves its row at: none for a delete. -/
def Change.held (change : Change) : Option RowVersion :=
  match change.op with
  | .upsert => some change.rowVersion
  | .delete => none

/-- The row a change leaves behind. -/
def Change.row (change : Change) : Option StoredRow :=
  match change.op, change.snapshot with
  | .upsert, some snapshot => some ⟨snapshot, change.rowVersion, change.schemaVersion⟩
  | _, _ => none

/-- A change as one write of its row's version. -/
def Change.entry (change : Change) : KeyedLog.Entry RowKey RowVersion :=
  ⟨change.seq.get, change.key, change.held⟩

/-- The write that applies a change as it stands. -/
def Change.storeOp (change : Change) : StorageOp :=
  match change.row with
  | some row => .upsertRow change.key row.snapshot row.rowVersion row.schemaVersion
  | none => .deleteRow change.key

/-- The version a database holds for each row. -/
def Db.version (db : Db) : KeyedLog.Holding RowKey RowVersion :=
  fun key => (db.rows.lookup key).map (·.rowVersion)

namespace Engine

/-- A change as it would be stored: migrated, where it needs to be. -/
def landing (engine : Engine) (change : Change) : Except MigrationError Change :=
  (engine.migratedChange change).map (·.getD change)

/-- Whether a change is applied and not set aside. -/
def lands (engine : Engine) (change : Change) : Bool := (engine.landing change).isOk

/-- The op staged for a change. Only an upsert can fail to migrate. -/
def opFor (engine : Engine) (change : Change) : StorageOp :=
  match engine.landing change, change.snapshot with
  | .ok stored, _ => stored.storeOp
  | .error e, some snapshot =>
      .quarantineRow change.key snapshot change.schemaVersion (toString e)
  | .error _, none => change.storeOp

/-- A migration touches the snapshot and its schema version, nothing else. -/
theorem migratedChange_some (engine : Engine)
    (migrated : engine.migratedChange change = .ok (some result)) :
    change.snapshot.isSome ∧ ∃ snapshot target,
      result = { change with snapshot := some snapshot, schemaVersion := target } := by
  unfold migratedChange at migrated
  split at migrated
  · cases migrated
  · split at migrated
    · cases migrated
    · split at migrated
      · cases migrated
      · rename_i snapshot carried
        split at migrated
        · cases migrated
        · split at migrated
          · cases migrated
          · cases migrated
            exact ⟨by simp [carried], _, _, rfl⟩

theorem migratedChange_error (engine : Engine) (failed : engine.migratedChange change = .error e) :
    change.snapshot.isSome := by
  unfold migratedChange at failed
  split at failed
  · cases failed
  · split at failed
    · cases failed
    · split at failed
      · cases failed
      · rename_i snapshot carried
        simp [carried]

/-- What is stored for a change writes the same row to the same version. -/
theorem landing_ok (engine : Engine) (landed : engine.landing change = .ok stored)
    (valid : change.validate = .ok ()) :
    stored.key = change.key ∧ stored.held = change.held ∧ stored.op = change.op ∧
      stored.rowVersion = change.rowVersion ∧ stored.validate = .ok () := by
  unfold landing at landed
  cases found : engine.migratedChange change with
  | error e =>
    rw [found] at landed
    cases landed
  | ok migrated =>
    rw [found] at landed
    cases landed
    cases migrated with
    | none => exact ⟨rfl, rfl, rfl, rfl, valid⟩
    | some result =>
      obtain ⟨carried, snapshot, target, rfl⟩ := engine.migratedChange_some found
      refine ⟨rfl, rfl, rfl, rfl, ?_⟩
      obtain ⟨old, present⟩ := Option.isSome_iff_exists.mp carried
      cases op : change.op with
      | upsert => simp [Change.validate]
      | delete => simp [Change.validate, op, present] at valid

end Engine

/-- A valid change's row is at the version the change carries. -/
theorem Change.row_version (change : Change) (valid : change.validate = .ok ()) :
    change.row.map (·.rowVersion) = change.held := by
  unfold row held
  cases op : change.op with
  | delete => cases change.snapshot <;> rfl
  | upsert =>
    cases carried : change.snapshot with
    | none => simp [validate, op, carried] at valid
    | some snapshot => rfl

section Staging

variable [Hashing]

/-- What a row at some version adds to a digest. -/
def versionHash (key : RowKey) (version : RowVersion) : BitVec 128 := rowHash key.1 key.2 version

/-- The version each row will be at: what the batch decided, else what storage holds. -/
def Staging.view (staging : Staging) (db : Db) : KeyedLog.Holding RowKey RowVersion :=
  fun key => (staging.staged.lookup key).getD (db.version key)

/-- The digest after one row moved between two versions, either of them none. -/
def ScopeDigest.moved (digest : ScopeDigest) (key : RowKey) (old new : Option RowVersion) :
    ScopeDigest :=
  ⟨digest.raw - KeyedLog.share versionHash key old + KeyedLog.share versionHash key new⟩

theorem ScopeDigest.replace_eq_moved (digest : ScopeDigest) (key : RowKey)
    (current : Option RowVersion) (new : RowVersion) :
    digest.replace key current new = digest.moved key current (some new) := by
  cases current with
  | none =>
    simp [replace, moved, add, KeyedLog.share, versionHash]
  | some old => rfl

theorem ScopeDigest.discard_eq_moved (digest : ScopeDigest) (key : RowKey)
    (current : Option RowVersion) : digest.discard key current = digest.moved key current none := by
  cases current with
  | none => simp [discard, moved, KeyedLog.share]
  | some old => simp [discard, moved, remove, KeyedLog.share, versionHash]

omit [Hashing] in
theorem Staging.current_ok {staging : Staging} {version : Option RowVersion}
    (read : staging.current faults db key = .ok version) : version = staging.view db key := by
  unfold current at read
  unfold view
  cases pending : staging.staged.lookup key with
  | some decided =>
    rw [pending] at read
    cases read
    rfl
  | none =>
    rw [pending] at read
    simp only [Db.rowVersion] at read
    split at read
    · cases read
    · cases read
      rfl

/-- What staging one change does to everything staged before it. -/
structure Staging.Stages (staging next : Staging) (db : Db) (change : Change) (op : StorageOp) :
    Prop where
  digest : next.digest = staging.digest.moved change.key (staging.view db change.key) change.held
  ops : next.ops = staging.ops ++ [op]
  staged : next.staged = staging.staged.insert change.key change.held

private theorem stageChange_stages
    (staged : stageChange faults db change cls staging = .ok next) :
    staging.Stages next db change change.storeOp := by
  unfold stageChange at staged
  split at staged
  · cases staged
  · rename_i current read
    rw [Staging.current_ok read] at staged
    split at staged
    · rename_i op
      split at staged
      · cases staged
      · rename_i snapshot carried
        split at staged
        · cases staged
        · cases staged
          exact ⟨by simp [Change.held, op, ScopeDigest.replace_eq_moved],
            by simp [Change.storeOp, Change.row, op, carried], by simp [Change.held, op]⟩
    · rename_i op
      cases staged
      exact ⟨by simp [Change.held, op, ScopeDigest.discard_eq_moved],
        by simp [Change.storeOp, Change.row, op], by simp [Change.held, op]⟩

private theorem stageQuarantine_stages (valid : change.validate = .ok ())
    (staged : stageQuarantine faults db change reason staging = .ok next) :
    ∃ snapshot, change.snapshot = some snapshot ∧ staging.Stages next db change
      (.quarantineRow change.key snapshot change.schemaVersion reason) := by
  unfold stageQuarantine at staged
  split at staged
  · cases staged
  · rename_i current read
    rw [Staging.current_ok read] at staged
    split at staged
    · cases staged
    · rename_i snapshot carried
      have op : change.op = .upsert := by
        cases op : change.op with
        | upsert => rfl
        | delete => simp [Change.validate, op, carried] at valid
      cases staged
      exact ⟨snapshot, carried, by simp [Change.held, op, ScopeDigest.replace_eq_moved], rfl,
        by simp [Change.held, op]⟩

/-- Staging one change moves the digest by its row, whether or not it is set aside. -/
theorem Device.stageOne_stages (device : Device) (valid : change.validate = .ok ())
    (staged : device.stageOne faults staging change = .ok next) :
    staging.Stages next device.db change (device.engine.opFor change) := by
  unfold stageOne at staged
  cases found : device.engine.migratedChange change with
  | ok migrated =>
    have landed : device.engine.landing change = .ok (migrated.getD change) := by
      rw [Engine.landing, found]
      rfl
    obtain ⟨key, held, _⟩ := device.engine.landing_ok landed valid
    have stages : staging.Stages next device.db (migrated.getD change)
        (migrated.getD change).storeOp := by
      rw [found] at staged
      cases migrated with
      | none => exact stageChange_stages staged
      | some result => exact stageChange_stages staged
    have op : device.engine.opFor change = (migrated.getD change).storeOp := by
      rw [Engine.opFor, landed]
    rw [op]
    exact ⟨by rw [stages.digest, key, held], stages.ops, by rw [stages.staged, key, held]⟩
  | error e =>
    have failed : device.engine.landing change = .error e := by
      rw [Engine.landing, found]
      rfl
    rw [found] at staged
    simp only at staged
    split at staged
    · cases staged
    · rename_i inner quarantined
      cases staged
      obtain ⟨snapshot, carried, stages⟩ := stageQuarantine_stages valid quarantined
      have op : device.engine.opFor change =
          .quarantineRow change.key snapshot change.schemaVersion (toString e) := by
        rw [Engine.opFor, failed, carried]
      rw [op]
      exact ⟨stages.digest, stages.ops, stages.staged⟩

private theorem stageChange_quarantined
    (staged : stageChange faults db change cls staging = .ok next) :
    next.quarantined = staging.quarantined := by
  unfold stageChange at staged
  split at staged
  · cases staged
  · split at staged
    · split at staged
      · cases staged
      · split at staged <;> cases staged
        rfl
    · cases staged
      rfl

private theorem stageQuarantine_quarantined
    (staged : stageQuarantine faults db change reason staging = .ok next) :
    next.quarantined = staging.quarantined := by
  unfold stageQuarantine at staged
  split at staged
  · cases staged
  · split at staged <;> cases staged
    rfl

/-- A change is reported as set aside exactly if it does not land. -/
theorem Device.stageOne_quarantined (device : Device)
    (staged : device.stageOne faults staging change = .ok next) :
    next.quarantined.map Prod.fst = staging.quarantined.map Prod.fst ++
      ([change].filter (!device.engine.lands ·)).map Change.key := by
  unfold stageOne at staged
  cases found : device.engine.migratedChange change with
  | ok migrated =>
    have lands : device.engine.lands change = true := by
      rw [Engine.lands, Engine.landing, found]
      rfl
    rw [found] at staged
    cases migrated with
    | none => simp [stageChange_quarantined staged, lands]
    | some result => simp [stageChange_quarantined staged, lands]
  | error e =>
    have lands : device.engine.lands change = false := by
      rw [Engine.lands, Engine.landing, found]
      rfl
    rw [found] at staged
    simp only at staged
    split at staged
    · cases staged
    · rename_i quarantined
      cases staged
      simp [stageQuarantine_quarantined quarantined, lands]

theorem Staging.Stages.view {staging next : Staging} (stages : staging.Stages next db change op) :
    next.view db = KeyedLog.write (staging.view db) change.entry := by
  funext key
  rw [Staging.view, stages.staged, Table.lookup_insert_if]
  by_cases here : key = change.key
  · subst here
    change _ = KeyedLog.write (staging.view db) change.entry change.entry.key
    rw [KeyedLog.write_same, if_pos rfl, Option.getD_some]
    rfl
  · have elsewhere : key ≠ change.entry.key := here
    rw [if_neg here, KeyedLog.write_other elsewhere]
    rfl

/-- The digest less what the rows in view weigh: staging keeps it as it is. -/
def Staging.excess (staging : Staging) (db : Db) (keys : Finset RowKey) : BitVec 128 :=
  staging.digest.raw - KeyedLog.weigh versionHash keys (staging.view db)

private theorem Staging.Stages.excess {staging next : Staging}
    (stages : staging.Stages next db change op) (keys : Finset RowKey)
    (inside : change.key ∈ keys) : next.excess db keys = staging.excess db keys := by
  have entryInside : change.entry.key ∈ keys := inside
  rw [Staging.excess, stages.view, KeyedLog.weigh_write versionHash keys entryInside,
    stages.digest, Staging.excess, ScopeDigest.moved]
  change _ - KeyedLog.share versionHash change.key (staging.view db change.key) +
      KeyedLog.share versionHash change.key change.held -
    (_ - KeyedLog.share versionHash change.key (staging.view db change.key) +
      KeyedLog.share versionHash change.key change.held) = _
  abel

/-- What staging a whole batch does. -/
structure Device.StagesAll (device : Device) (staging final : Staging) (changes : List Change) :
    Prop where
  ops : final.ops = staging.ops ++ changes.map device.engine.opFor
  view : final.view device.db = KeyedLog.replay (staging.view device.db) (changes.map Change.entry)
  excess : ∀ keys : Finset RowKey, (∀ change ∈ changes, change.key ∈ keys) →
    final.excess device.db keys = staging.excess device.db keys
  quarantined : final.quarantined.map Prod.fst = staging.quarantined.map Prod.fst ++
    (changes.filter (!device.engine.lands ·)).map Change.key

theorem Device.stageAll (device : Device) (valid : ∀ change ∈ changes, change.validate = .ok ())
    (staged : changes.foldlM (device.stageOne faults) staging = .ok final) :
    device.StagesAll staging final changes := by
  induction changes generalizing staging with
  | nil =>
    cases staged
    exact ⟨by simp, rfl, fun _ _ => rfl, by simp⟩
  | cons change rest ih =>
    rw [List.foldlM_cons] at staged
    cases first : device.stageOne faults staging change with
    | error e =>
      rw [first] at staged
      cases staged
    | ok next =>
      rw [first] at staged
      have one := device.stageOne_stages (valid change List.mem_cons_self) first
      have all := ih (fun later member => valid later (List.mem_cons_of_mem _ member)) staged
      refine ⟨by rw [all.ops, one.ops]; simp, ?_, fun keys inside => ?_, ?_⟩
      · rw [all.view, one.view]
        rfl
      · rw [all.excess keys fun later member => inside later (List.mem_cons_of_mem _ member)]
        exact one.excess keys (inside change List.mem_cons_self)
      · rw [all.quarantined, device.stageOne_quarantined first, List.append_assoc,
          ← List.map_append, ← List.filter_append, List.singleton_append]

end Staging

/-! ### What storage holds after a batch -/

/-- The rows of a database, key by key. -/
def Db.holding (db : Db) : KeyedLog.Holding RowKey StoredRow := fun key => db.rows.lookup key

/-- A change as one write of the row that is stored for it. -/
def Engine.storedEntry (engine : Engine) (change : Change) : KeyedLog.Entry RowKey StoredRow :=
  ⟨change.seq.get, change.key,
    match engine.landing change with
    | .ok stored => stored.row
    | .error _ => none⟩

theorem Db.holding_storeOp (db : Db) (change : Change) :
    (db.apply change.storeOp).holding =
      KeyedLog.write db.holding ⟨change.seq.get, change.key, change.row⟩ := by
  funext key
  unfold Change.storeOp KeyedLog.write
  cases change.row with
  | some row =>
    change Finmap.lookup key (db.rows.insert change.key row) = _
    rw [Table.lookup_insert_if, Function.update_apply]
    rfl
  | none =>
    change Finmap.lookup key (Finmap.erase change.key db.rows) = _
    rw [Table.lookup_erase_if, Function.update_apply]
    rfl

/-- Applying a change writes its row if it lands, and no row if it is set aside. -/
theorem Engine.holding_opFor (engine : Engine) (db : Db) (change : Change) :
    (db.apply (engine.opFor change)).holding =
      if engine.lands change then KeyedLog.write db.holding (engine.storedEntry change)
      else db.holding := by
  cases found : engine.migratedChange change with
  | ok migrated =>
    have landed : engine.landing change = .ok (migrated.getD change) := by
      rw [landing, found]
      rfl
    have same : (migrated.getD change).seq = change.seq ∧ (migrated.getD change).key = change.key := by
      cases migrated with
      | none => exact ⟨rfl, rfl⟩
      | some result =>
        obtain ⟨_, snapshot, target, rfl⟩ := engine.migratedChange_some found
        exact ⟨rfl, rfl⟩
    have lands : engine.lands change = true := by
      rw [Engine.lands, landed]
      rfl
    rw [if_pos lands, opFor, storedEntry, landed]
    change (db.apply (migrated.getD change).storeOp).holding = _
    rw [Db.holding_storeOp, same.1, same.2]
  | error e =>
    have failed : engine.landing change = .error e := by
      rw [landing, found]
      rfl
    obtain ⟨snapshot, carried⟩ :=
      Option.isSome_iff_exists.mp (engine.migratedChange_error found)
    have lands : ¬ engine.lands change = true := by
      rw [Engine.lands, failed]
      exact Bool.false_ne_true
    rw [if_neg lands, opFor, failed, carried]
    rfl

/-- Staged changes write rows and the quarantine and nothing else. -/
theorem Engine.staged_opFor (engine : Engine) (db : Db) (changes : List Change) :
    ∃ rows quarantine, db.staged (changes.map engine.opFor) =
      { db with rows := rows, quarantine := quarantine } := by
  induction changes generalizing db with
  | nil => exact ⟨db.rows, db.quarantine, rfl⟩
  | cons change rest ih =>
    obtain ⟨rows, quarantine, first⟩ : ∃ rows quarantine, db.apply (engine.opFor change) =
        { db with rows := rows, quarantine := quarantine } := by
      unfold opFor Change.storeOp
      split
      · split <;> exact ⟨_, _, rfl⟩
      · exact ⟨_, _, rfl⟩
      · split <;> exact ⟨_, _, rfl⟩
    obtain ⟨rows', quarantine', others⟩ := ih (db.apply (engine.opFor change))
    exact ⟨rows', quarantine', by rw [List.map_cons, Db.staged_cons, others, first]⟩

theorem Engine.holding_staged (engine : Engine) (db : Db) (changes : List Change) :
    (db.staged (changes.map engine.opFor)).holding =
      KeyedLog.replay db.holding ((changes.filter engine.lands).map engine.storedEntry) := by
  induction changes generalizing db with
  | nil => rfl
  | cons change rest ih =>
    rw [List.map_cons, Db.staged_cons, ih, engine.holding_opFor, List.filter_cons]
    split <;> rfl

theorem Engine.storedEntry_version (engine : Engine) (valid : change.validate = .ok ())
    (lands : engine.lands change = true) :
    (engine.storedEntry change).value.map (·.rowVersion) = change.held := by
  cases landed : engine.landing change with
  | error e =>
    rw [Engine.lands, landed] at lands
    cases lands
  | ok stored =>
    obtain ⟨_, held, _, _, stillValid⟩ := engine.landing_ok landed valid
    rw [storedEntry, landed, ← held]
    exact stored.row_version stillValid

/-- After a batch each row is at the version the batch last gave it, as far as
the changes landed. -/
theorem Engine.version_staged (engine : Engine) (db : Db) {changes : List Change}
    (valid : ∀ change ∈ changes, change.validate = .ok ()) :
    (db.staged (changes.map engine.opFor)).version =
      KeyedLog.replay db.version ((changes.filter engine.lands).map Change.entry) := by
  change (fun key => ((db.staged (changes.map engine.opFor)).holding key).map (·.rowVersion)) = _
  rw [engine.holding_staged, KeyedLog.replay_map, List.map_map]
  congr 1
  apply List.map_congr_left
  intro change member
  obtain ⟨inside, lands⟩ := List.mem_filter.mp member
  have version := engine.storedEntry_version (valid change inside) lands
  simp only [Function.comp_apply, version]
  rfl

/-! ### The plan and its transaction -/

/-- The divergence record a plan writes: one at most, since a scope that
diverges does not heal. -/
def Plan.record (plan : Plan) (attempts : Nat) : Option (Nat × Bool) :=
  match plan.escalated with
  | some raised => some (raised, false)
  | none => if plan.heals then some (attempts, true) else none

/-- Everything a plan decides, from the device and the batch alone. -/
structure Device.Plans [Hashing] (device : Device) (batch : Batch) (compareDigest rebuilding : Bool)
    (plan : Plan) : Prop where
  ordered : batch.Ordered (device.engine.scopeStateOr batch.scope).cursor.get
  staged : device.db.staged plan.ops =
    { device.db.staged (batch.changes.map device.engine.opFor) with
      cursors := device.db.cursors.insert batch.scope batch.nextCursor
      digests := device.db.digests.insert batch.scope plan.digest.toHex
      divergences :=
        match plan.record (device.engine.scopeHealth batch.scope).attempts with
        | some record => device.db.divergences.insert batch.scope record
        | none => device.db.divergences }
  balance : ∀ keys : Finset RowKey, (∀ change ∈ batch.changes, change.key ∈ keys) →
    plan.digest.raw - KeyedLog.weigh versionHash keys
        (KeyedLog.replay device.db.version (batch.changes.map Change.entry)) =
      (device.engine.scopeStateOr batch.scope).digest.raw -
        KeyedLog.weigh versionHash keys device.db.version
  quarantined : plan.quarantined.map Prod.fst =
    (batch.changes.filter (!device.engine.lands ·)).map Change.key
  diverged : plan.diverged = (compareDigest && decide (plan.digest.toHex ≠ batch.digest))
  escalated : plan.escalated =
    if plan.diverged && ((device.engine.scopeHealth batch.scope).isHealthy ||
      (rebuilding && (device.engine.scopeHealth batch.scope).needsRebootstrap)) then
      some (saturatingSucc (device.engine.scopeHealth batch.scope).attempts) else none
  heals : plan.heals = (compareDigest && !plan.diverged &&
    (device.engine.scopeHealth batch.scope).needsRebootstrap)

private theorem staged_tail (db : Db) (scope : ScopeId) (cursor : Cursor) (digest : HexString)
    (escalated : Option Nat) (heals : Bool) (attempts : Nat)
    (exclusive : escalated.isSome → heals = false) :
    db.staged ([.setCursor scope cursor, .setScopeDigest scope digest] ++
        ((match escalated with
          | some raised => [.recordDivergence scope raised false]
          | none => []) ++
        if heals then [.recordDivergence scope attempts true] else [])) =
      { db with
        cursors := db.cursors.insert scope cursor
        digests := db.digests.insert scope digest
        divergences :=
          match match escalated with
            | some raised => some (raised, false)
            | none => if heals then some (attempts, true) else none with
          | some record => db.divergences.insert scope record
          | none => db.divergences } := by
  cases escalated with
  | some raised =>
    rw [exclusive rfl]
    rfl
  | none => cases heals <;> rfl

/-- What a plan is, and what its ops make of storage. -/
theorem Device.plan_plans [Hashing] (device : Device) {batch : Batch} {plan : Plan}
    (planned : device.plan faults batch compareDigest rebuilding = .ok plan) :
    device.Plans batch compareDigest rebuilding plan := by
  unfold Device.plan at planned
  simp only at planned
  split at planned
  · cases planned
  · rename_i accepted
    split at planned
    · cases planned
    · rename_i staging folded
      have ordered := (validateOrdering_ok_iff batch _).mp accepted
      have all := device.stageAll ordered.valid folded
      obtain ⟨rows, quarantine, only⟩ := device.engine.staged_opFor device.db batch.changes
      have made := Except.ok.inj planned
      refine ⟨ordered, ?_, fun keys inside => ?_, ?_, ?_, ?_, ?_⟩
      · rw [← made]
        simp only [Plan.record]
        rw [all.ops, List.nil_append, List.append_assoc, List.append_assoc, Db.staged_append, only]
        apply staged_tail
        intro raised
        rw [Option.isSome_ite, Bool.and_eq_true] at raised
        rw [raised.1, Bool.not_true, Bool.and_false, Bool.false_and]
      · have kept := all.excess keys inside
        rw [Staging.excess, all.view] at kept
        rw [← made]
        exact kept
      · rw [← made]
        exact all.quarantined
      all_goals rw [← made]

namespace Device.Plans

variable [Hashing] {device : Device} {batch : Batch} {plan : Plan}
  (plans : device.Plans batch compareDigest rebuilding plan)
include plans

theorem cursors : (device.db.staged plan.ops).cursors =
    device.db.cursors.insert batch.scope batch.nextCursor := by
  rw [plans.staged]

theorem digests : (device.db.staged plan.ops).digests =
    device.db.digests.insert batch.scope plan.digest.toHex := by
  rw [plans.staged]

theorem holding : (device.db.staged plan.ops).holding =
    KeyedLog.replay device.db.holding
      ((batch.changes.filter device.engine.lands).map device.engine.storedEntry) := by
  rw [← device.engine.holding_staged, plans.staged]
  rfl

theorem version : (device.db.staged plan.ops).version =
    KeyedLog.replay device.db.version
      ((batch.changes.filter device.engine.lands).map Change.entry) := by
  rw [← device.engine.version_staged device.db plans.ordered.valid, plans.staged]
  rfl

omit plans in
/-- A batch whose digest is not compared records nothing. -/
theorem record_uncompared (plans : device.Plans batch false rebuilding plan) :
    plan.record attempts = none := by
  have diverged := plans.diverged
  have escalated := plans.escalated
  have heals := plans.heals
  rw [Bool.false_and] at diverged
  rw [diverged, Bool.false_and, if_neg Bool.false_ne_true] at escalated
  rw [Bool.false_and, Bool.false_and] at heals
  rw [Plan.record, escalated, heals]
  rfl

/-- A batch writes nothing to the outbox or its records. -/
theorem outbox : (device.db.staged plan.ops).outbox = device.db.outbox ∧
    (device.db.staged plan.ops).resolved = device.db.resolved ∧
    (device.db.staged plan.ops).enqueued = device.db.enqueued := by
  obtain ⟨rows, quarantine, only⟩ := device.engine.staged_opFor device.db batch.changes
  rw [plans.staged, only]
  exact ⟨rfl, rfl, rfl⟩

end Device.Plans

/-- The health a scope is left in by a divergence record. -/
def recordedHealth (health : Table ScopeId ScopeHealth) (scope : ScopeId) :
    Option (Nat × Bool) → Table ScopeId ScopeHealth
  | some (attempts, healed) => health.insert scope (Engine.restoredHealth attempts healed)
  | none => health

private theorem foldl_emit (quarantined : List (RowKey × SchemaVersion × String)) (engine : Engine) :
    quarantined.foldl (fun engine (key, schemaVersion, reason) =>
      engine.emit (.rowQuarantined key schemaVersion reason)) engine =
        { engine with
          effects := engine.effects ++
            quarantined.map fun row => Telemetry.rowQuarantined row.1 row.2.1 row.2.2 } := by
  induction quarantined generalizing engine with
  | nil => simp
  | cons row rest ih =>
    rw [List.foldl_cons, ih]
    simp only [Engine.emit, List.append_assoc, List.map_cons, List.cons_append, List.nil_append]

/-- A committed batch moves one scope's state, and its health by the same record
that was written to storage; what it reports depends on the batch and its plan alone. -/
theorem Device.advance_alike [Hashing] (batch : Batch) (plan : Plan) :
    ∃ reports, ∀ engine, advance engine batch plan =
      { engine with
        effects := engine.effects ++ reports
        scopes := engine.scopes.insert batch.scope ⟨batch.nextCursor, plan.digest⟩
        health := recordedHealth engine.health batch.scope
          (plan.record (engine.scopeHealth batch.scope).attempts) } := by
  unfold advance
  simp only [foldl_emit]
  cases raised : plan.escalated with
  | some attempts =>
    simp only [Plan.record, raised, recordedHealth, Engine.restoredHealth, Engine.taint]
    let rows := plan.quarantined.map fun row => Telemetry.rowQuarantined row.1 row.2.1 row.2.2
    let diverged := Telemetry.scopeDiverged batch.scope plan.digest.toHex batch.digest
    split
    · refine ⟨rows ++ ([diverged] ++ [.scopeUnhealable batch.scope attempts]), fun engine => ?_⟩
      simp only [Engine.emit, ← List.append_assoc]
      rfl
    · refine ⟨rows ++ [diverged], fun engine => ?_⟩
      simp only [Engine.emit, ← List.append_assoc]
      rfl
  | none =>
    simp only [Plan.record, raised]
    split <;> exact ⟨_, fun engine => rfl⟩

theorem Device.advance_eq [Hashing] (engine : Engine) (batch : Batch) (plan : Plan) :
    ∃ emitted, advance engine batch plan =
      { engine with
        effects := emitted
        scopes := engine.scopes.insert batch.scope ⟨batch.nextCursor, plan.digest⟩
        health := recordedHealth engine.health batch.scope
          (plan.record (engine.scopeHealth batch.scope).attempts) } := by
  obtain ⟨reports, moved⟩ := advance_alike batch plan
  exact ⟨_, moved engine⟩

/-- A batch that sets nothing aside and records nothing has nothing to report. -/
theorem Device.advance_effects [Hashing] (engine : Engine) (batch : Batch) (plan : Plan)
    (landed : plan.quarantined = [])
    (unrecorded : plan.record (engine.scopeHealth batch.scope).attempts = none) :
    advance engine batch plan =
      { engine with scopes := engine.scopes.insert batch.scope ⟨batch.nextCursor, plan.digest⟩ } := by
  unfold Plan.record at unrecorded
  unfold advance
  cases raised : plan.escalated with
  | some attempts =>
    rw [raised] at unrecorded
    cases unrecorded
  | none =>
    rw [raised] at unrecorded
    have calm : plan.heals = false := by
      cases heals : plan.heals with
      | false => rfl
      | true =>
        rw [heals] at unrecorded
        cases unrecorded
    simp only [landed, List.foldl_nil, calm, Bool.false_eq_true, if_false]
    rfl

/-- The health a committed batch leaves each scope in. -/
theorem Device.advance_health [Hashing] (engine : Engine) (batch : Batch) (plan : Plan)
    (scope : ScopeId) :
    (advance engine batch plan).scopeHealth scope =
      if scope = batch.scope then
        match plan.record (engine.scopeHealth scope).attempts with
        | some record => Engine.restoredHealth record.1 record.2
        | none => engine.scopeHealth scope
      else engine.scopeHealth scope := by
  obtain ⟨emitted, moved⟩ := advance_eq engine batch plan
  rw [moved, Engine.scopeHealth]
  by_cases same : scope = batch.scope
  · subst same
    rw [if_pos rfl]
    cases plan.record (engine.scopeHealth batch.scope).attempts with
    | some record => simp [recordedHealth]
    | none => rfl
  · rw [if_neg same]
    cases plan.record (engine.scopeHealth batch.scope).attempts with
    | some record => simp [recordedHealth, Engine.scopeHealth, same]
    | none => rfl

/-- A change is staged alike on two devices that hold the same version of its row. -/
theorem Device.stageOne_congr [Hashing] {first second : Device} {change : Change} (faults : Faults)
    (registry : first.engine.registry = second.engine.registry)
    (migrations : first.engine.migrations = second.engine.migrations)
    (row : first.db.rows.lookup change.key = second.db.rows.lookup change.key) (staging : Staging) :
    first.stageOne faults staging change = second.stageOne faults staging change := by
  have migrated : first.engine.migratedChange change = second.engine.migratedChange change := by
    unfold Engine.migratedChange
    rw [registry, migrations]
  have current : staging.current faults first.db change.key =
      staging.current faults second.db change.key := by
    unfold Staging.current Db.rowVersion
    rw [row]
  unfold stageOne
  rw [migrated, registry]
  cases found : second.engine.migratedChange change with
  | error e => simp only [stageQuarantine, current]
  | ok migrated =>
    cases migrated with
    | none => simp only [stageChange, current]
    | some result =>
      obtain ⟨_, snapshot, target, rfl⟩ := second.engine.migratedChange_some found
      simp only [stageChange]
      rw [Change.key] at current
      simp only [Change.key, current]

/-- A plan is read off the app's declarations, the scope's position and health, and the
rows the batch is about. -/
theorem Device.plan_congr [Hashing] {first second : Device} {batch : Batch} (faults : Faults)
    (registry : first.engine.registry = second.engine.registry)
    (migrations : first.engine.migrations = second.engine.migrations)
    (rows : ∀ change ∈ batch.changes,
      first.db.rows.lookup change.key = second.db.rows.lookup change.key)
    (position : first.engine.scopeStateOr batch.scope = second.engine.scopeStateOr batch.scope)
    (health : first.engine.scopeHealth batch.scope = second.engine.scopeHealth batch.scope)
    (compareDigest rebuilding : Bool) :
    first.plan faults batch compareDigest rebuilding =
      second.plan faults batch compareDigest rebuilding := by
  have staged : ∀ staging, batch.changes.foldlM (first.stageOne faults) staging =
      batch.changes.foldlM (second.stageOne faults) staging := by
    generalize batch.changes = changes at rows
    induction changes with
    | nil => exact fun _ => rfl
    | cons change rest ih =>
      intro staging
      rw [List.foldlM_cons, List.foldlM_cons, Device.stageOne_congr faults registry migrations
        (rows change List.mem_cons_self)]
      congr 1
      funext staging
      exact ih (fun later member => rows later (List.mem_cons_of_mem change member)) staging
  unfold plan
  simp only [position, health, staged]

/-- How an apply ends: refused before its transaction, or with its plan
committed, committed and unacknowledged, or not committed at all. -/
inductive Device.Applies [Hashing] (device : Device) (batch : Batch)
    (compareDigest rebuilding : Bool) : Except ApplyError Applied × Device → Prop where
  | refused (e : ApplyError) : Applies device batch compareDigest rebuilding (.error e, device)
  | committed (plan : Plan) (trusted : batch.scope ∉ device.engine.suspect)
      (plans : device.Plans batch compareDigest rebuilding plan) :
      Applies device batch compareDigest rebuilding
        (.ok ⟨batch.changes.length, plan.diverged⟩,
          ⟨advance device.engine batch plan, device.db.staged plan.ops⟩)
  | unacknowledged (e : StorageError) (plan : Plan) (trusted : batch.scope ∉ device.engine.suspect)
      (plans : device.Plans batch compareDigest rebuilding plan) :
      Applies device batch compareDigest rebuilding
        (.error (.storage e), ⟨device.engine.distrust batch.scope, device.db.staged plan.ops⟩)
  | uncommitted (e : StorageError) :
      Applies device batch compareDigest rebuilding
        (.error (.storage e), ⟨device.engine.distrust batch.scope, device.db⟩)

theorem Device.refreshIfSuspect_trusted (device : Device) {scope : ScopeId} {fresh : Device}
    (done : device.refreshIfSuspect faults scope = (.ok (), fresh)) :
    scope ∉ fresh.engine.suspect := by
  unfold refreshIfSuspect at done
  split at done
  · split at done
    · cases done
    · cases done
      exact Finset.notMem_erase scope _
  · rename_i trusted
    cases done
    exact trusted

theorem Device.applyChanges_applies [Hashing] (device : Device) (faults : Faults) (batch : Batch)
    (compareDigest rebuilding : Bool) :
    (device.refreshIfSuspect faults batch.scope).2.Applies batch compareDigest rebuilding
      (device.applyChanges faults batch compareDigest rebuilding) := by
  unfold applyChanges
  cases refreshed : device.refreshIfSuspect faults batch.scope with
  | mk outcome fresh =>
  cases outcome with
  | error e => exact .refused e
  | ok =>
    have trusted := device.refreshIfSuspect_trusted refreshed
    simp only
    cases planned : fresh.plan faults batch compareDigest rebuilding with
    | error e => exact .refused e
    | ok plan =>
      have plans := fresh.plan_plans planned
      simp only
      obtain ⟨outcome, done⟩ | ⟨e, lost | done⟩ := Db.transact_cases faults fresh.db plan.ops
      · rw [done]
        exact .committed plan trusted plans
      · rw [lost]
        exact .uncommitted e
      · rw [done]
        exact .unacknowledged e plan trusted plans

/-- Over honest storage an apply is its plan. -/
theorem Device.applyChanges_honest [Hashing] (device : Device) {batch : Batch}
    (trusted : batch.scope ∉ device.engine.suspect) (compareDigest rebuilding : Bool) :
    device.applyChanges .none batch compareDigest rebuilding =
      match device.plan .none batch compareDigest rebuilding with
      | .error e => (.error e, device)
      | .ok plan => (.ok ⟨batch.changes.length, plan.diverged⟩,
          ⟨advance device.engine batch plan, device.db.staged plan.ops⟩) := by
  unfold applyChanges refreshIfSuspect
  rw [if_neg trusted]
  cases planned : device.plan .none batch compareDigest rebuilding with
  | error e => simp only [planned]
  | ok plan =>
    simp only [planned]
    rfl

end CredSync
