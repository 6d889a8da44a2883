import CredSync.Server.Compaction
import CredSync.Sync.ScopeLog

/-! The scope log inside the database: what the two reads of the change log and the filling
of a batch serve of a table that shows the log is what the log serves. -/

namespace CredSync

/-- A table that shows a scope's log up to a watermark. -/
structure ScopeLog.Shown (log : ScopeLog) (scope : ScopeId) (table : List SyncChange)
    (watermark : Int) : Prop where
  sequenced : SequencedTable table
  rows : scopeLog table scope watermark = log.changes.map Change.toRow

/-! ### Changes as rows -/

private theorem Op.text_injective : Function.Injective Op.text := by
  intro op other same
  cases op <;> cases other <;> simp_all [Op.text]

private theorem Document.value_injective {max : Nat} {field : String} :
    Function.Injective fun document : Document max field => document.value := by
  rintro ⟨value, valid⟩ ⟨other, valid'⟩ same
  cases same
  rfl

theorem Change.toRow_injective : Function.Injective Change.toRow := by
  rintro ⟨seq, entity, entityId, op, snapshot, rowVersion, schemaVersion⟩
    ⟨seq', entity', entityId', op', snapshot', rowVersion', schemaVersion'⟩ same
  simp only [Change.toRow, ChangeRow.mk.injEq, Int.natCast_inj] at same
  obtain ⟨seqs, entities, entityIds, ops, snapshots, versions, schemas⟩ := same
  cases BoundedNum.ext seqs
  cases BoundedNum.ext versions
  cases BoundedNum.ext schemas
  cases BoundedString.ext entities
  cases BoundedString.ext entityIds
  cases Op.text_injective ops
  cases Option.map_injective Document.value_injective snapshots
  rfl

/-- A valid change is read back from its row as it was. -/
theorem Change.intoChange_toRow (change : Change) (valid : change.validate = .ok ()) :
    change.toRow.intoChange = .ok change := by
  have op : change.toRow.parsedOp = .ok change.op := by
    cases written : change.op <;> simp [ChangeRow.parsedOp, Change.toRow, written, Op.text]
  have snapshot : change.toRow.parsedSnapshot change.op = .ok change.snapshot := by
    cases written : change.op <;> cases carried : change.snapshot <;>
      simp [ChangeRow.parsedSnapshot, Change.toRow, carried, liftProtocol, Except.map] <;>
      simp [Change.validate, written, carried] at valid
  have schema : change.toRow.parsedSchemaVersion = .ok change.schemaVersion.get := by
    have upper := change.schemaVersion.upper
    simp [ChangeRow.parsedSchemaVersion, Change.toRow, upper]
  have unsign (column : String) (n : Nat) : unsigned column (n : Int) = .ok n := by
    simp [unsigned]
  unfold ChangeRow.intoChange
  rw [op]
  simp only [bind, Except.bind, snapshot, schema]
  simp [Change.toRow, unsign, liftProtocol]
  rfl

/-- A page that says nothing is left holds every row. -/
theorem readPage_finished {limit : Int64} {rows : List ChangeRow} {page : Page}
    (read : readPage limit rows = .ok page) (finished : page.moreBeyond = false) :
    page.changes.map Change.toRow = rows := by
  obtain ⟨rest, reads⟩ := readPage_ok read
  by_cases positive : 0 ≤ limit
  · have none := reads.moreBeyond positive
    rw [finished, eq_comm, Bool.not_eq_false', List.isEmpty_iff] at none
    have split := reads.split
    rw [none, List.append_nil] at split
    exact split.symm
  · -- under a negative ceiling there is always more
    have negative : limit.toInt < 0 := by
      rwa [Int64.le_iff_toInt_le, Int64.toInt_zero, not_le] at positive
    unfold readPage at read
    split at read
    · cases read
    · simp only at read
      split at read
      · cases read
      · cases read
        have fewer := of_decide_eq_false finished
        omega

theorem mapM_intoChange_toRow {changes : List Change}
    (valid : ∀ change ∈ changes, change.validate = .ok ()) :
    (changes.map Change.toRow).mapM ChangeRow.intoChange = .ok changes := by
  induction changes with
  | nil => rfl
  | cons change rest ih =>
    have others := ih fun later member => valid later (List.mem_cons_of_mem _ member)
    rw [List.map_cons, List.mapM_cons, change.intoChange_toRow (valid change List.mem_cons_self),
      others]
    rfl

/-- A ceiling that does not wrap reads the first of valid changes. -/
theorem readPage_toRow {limit : Int64} {changes : List Change}
    (valid : ∀ change ∈ changes, change.validate = .ok ()) (proper : 0 ≤ limit)
    (room : ¬ limit + 1 < 0) : readPage limit (changes.map Change.toRow) =
      .ok ⟨changes.take limit.toInt.toNat, decide (limit.toInt.toNat < changes.length)⟩ := by
  obtain ⟨succ, _⟩ := toInt_succ room
  have bound : 0 ≤ limit.toInt := by
    rwa [Int64.le_iff_toInt_le, Int64.toInt_zero] at proper
  obtain ⟨ceiling, same⟩ := Int.eq_ofNat_of_zero_le bound
  have asked : (limit.toInt + 1).toNat = ceiling + 1 := by omega
  have kept : limit.toInt.toNat = ceiling := by omega
  have converted := mapM_intoChange_toRow fun change member =>
    valid change (List.mem_of_mem_take (i := ceiling) member)
  unfold readPage
  rw [if_neg room]
  simp only [succ, asked, kept, if_pos proper, List.take_take, Nat.min_eq_left (Nat.le_succ ceiling),
    ← List.map_take, converted]
  simp only [List.length_take, List.length_map, same]
  congr 2
  rw [Bool.eq_iff_iff, decide_eq_true_iff, decide_eq_true_iff]
  omega

/-- The table that holds one scope's log alone. -/
def ScopeLog.table (log : ScopeLog) (scope : ScopeId) : List SyncChange :=
  log.changes.map fun change => ⟨scope.bytes, change.toRow⟩

/-! ### What the reads find -/

private theorem distinctOnRow_toRow (changes : List Change) :
    distinctOnRow (changes.map Change.toRow) =
      (changes.filter (isLatest changes)).map Change.toRow := by
  rw [distinctOnRow, List.filter_map]
  congr 1
  apply List.filter_congr
  intro change _
  rw [Function.comp_apply, List.all_map, isLatest]
  refine List.all_congr rfl fun other => ?_
  have key : (other.toRow.entity = change.toRow.entity ∧
      other.toRow.entityId = change.toRow.entityId) ↔ other.key = change.key := by
    simp [Change.toRow, Change.key, Prod.ext_iff, BoundedString.ext_iff]
  rw [Bool.eq_iff_iff]
  simp only [Function.comp_apply, Bool.or_eq_true, Bool.not_eq_true', Bool.and_eq_false_iff,
    decide_eq_false_iff_not, decide_eq_true_eq, ← not_and_or, key]
  simp [Change.toRow]

variable {log : ScopeLog} {scope : ScopeId} {table : List SyncChange} {watermark : Int}
  {cursor : Cursor} {batch : Batch}

/-- Every log is shown by some table. -/
theorem ScopeLog.shown (log : ScopeLog) (scope : ScopeId) :
    log.Shown scope (log.table scope) Limits.seqMax := by
  have ascending : (log.changes.map Change.toRow).Pairwise fun first second => first.seq < second.seq :=
    List.pairwise_map.mpr (log.ascending.imp fun below => Int.ofNat_lt.mpr below)
  have sequenced : SequencedTable (log.table scope) := by
    refine ⟨?_, ?_⟩
    · rw [table, List.map_map]
      have distinct := (List.pairwise_map.mpr (ascending.imp fun below => below.ne) :
        ((log.changes.map Change.toRow).map ChangeRow.seq).Pairwise (· ≠ ·))
      rwa [List.map_map] at distinct
    · intro row member
      obtain ⟨change, _, rfl⟩ := List.mem_map.mp member
      exact Int.ofNat_lt.mpr change.seq.lower
  refine ⟨sequenced, eq_of_ascending (sequenced.ascending scope _) ascending fun row => ?_⟩
  rw [mem_scopeLog, table, List.mem_map, List.mem_map]
  constructor
  · rintro ⟨⟨change, member, same⟩, _⟩
    cases same
    exact ⟨change, member, rfl⟩
  · rintro ⟨change, member, rfl⟩
    exact ⟨⟨change, member, rfl⟩, Int.ofNat_le.mpr change.seq.upper⟩

theorem ScopeLog.Shown.selectChanges (shown : log.Shown scope table watermark) (cursor : Cursor) :
    selectChanges table scope cursor.get watermark = (log.after cursor).map Change.toRow := by
  rw [selectChanges_eq shown.sequenced, shown.rows, List.filter_map]
  congr 1
  apply List.filter_congr
  intro change _
  simp [Change.toRow]

theorem ScopeLog.Shown.selectLatest (shown : log.Shown scope table watermark) (cursor : Cursor) :
    selectLatest table scope cursor.get watermark = (log.compacted cursor).map Change.toRow := by
  rw [selectLatest_eq shown.sequenced, shown.rows, distinctOnRow_toRow, List.filter_map,
    List.filter_filter]
  congr 1
  apply List.filter_congr
  intro change _
  cases written : change.op <;>
    simp [Change.toRow, written, Op.text, Bool.and_comm, Bool.and_assoc]

/-! ### What a request is answered with -/

section Pages

variable [Hashing]

/-- The batch a read becomes under some ceiling, budget and compressor. -/
def Answered (scope : ScopeId) (read : Int64 → Except ServerError Page) (cursor : Cursor)
    (batch : Batch) : Prop :=
  ∃ (limit : Int64) (page : Page) (compressedLen : Bytes → Nat) (budgetBytes : Nat)
    (digest : HexString), read limit = .ok page ∧
      batch = fillBatch compressedLen scope cursor page.changes page.moreBeyond budgetBytes digest

/-- A page that `bootstrap_after` and `fill_batch` serve of a log. -/
def ScopeLog.Boots (log : ScopeLog) (scope : ScopeId) (cursor : Cursor) (batch : Batch) : Prop :=
  ∃ table watermark, log.Shown scope table watermark ∧
    Answered scope (fun limit => bootstrapAfter table scope cursor.get limit watermark) cursor batch

/-- A batch that `changes_after` and `fill_batch` serve of a log. -/
def ScopeLog.Pulls (log : ScopeLog) (scope : ScopeId) (cursor : Cursor) (batch : Batch) : Prop :=
  ∃ table watermark, log.Shown scope table watermark ∧
    Answered scope (fun limit => changesAfterWatermark table scope cursor.get limit watermark)
      cursor batch

theorem Answered.placed {read : Int64 → Except ServerError Page}
    (answered : Answered scope read cursor batch) : batch.scope = scope := by
  obtain ⟨_, _, _, _, _, _, rfl⟩ := answered
  exact (fillBatch_cut ..).elim fun _ cut => cut.scope

/-- A page under any ceiling holds the first of its rows, and all of them if none are left. -/
theorem Answered.carries {read : Int64 → Except ServerError Page} {source : List Change}
    (answered : Answered scope read cursor batch)
    (reads : ∀ limit page, read limit = .ok page →
      readPage limit (source.map Change.toRow) = .ok page)
    (within : source.Sublist (log.after cursor)) : batch.Carries cursor source := by
  obtain ⟨limit, page, compressedLen, budgetBytes, digest, read, rfl⟩ := answered
  have read := reads limit page read
  obtain ⟨beyond, paged⟩ := readPage_ok read
  obtain ⟨left, cut⟩ := fillBatch_cut compressedLen scope cursor page.changes page.moreBeyond
    budgetBytes digest
  obtain ⟨taken, others, rfl, same, rest⟩ := List.map_eq_append_iff.mp paged.split
  have first : page.changes = taken :=
    (List.map_injective_iff.mpr Change.toRow_injective same).symm
  subst first
  refine cut.carries rfl (fun finished => ?_) ((log.ascending.filter _).sublist within)
    fun change member => (ScopeLog.mem_after.mp (within.subset member)).2
  have whole := readPage_finished read finished
  exact List.self_eq_append_right.mp (List.map_injective_iff.mpr Change.toRow_injective whole)

theorem ScopeLog.Boots.carries (boots : log.Boots scope cursor batch) :
    batch.Carries cursor (log.compacted cursor) := by
  obtain ⟨table, watermark, shown, answered⟩ := boots
  refine answered.carries (fun limit page read => ?_) (log.compacted_offers cursor).within
  unfold bootstrapAfter at read
  split at read
  · cases read
  · rwa [shown.selectLatest] at read

theorem ScopeLog.Boots.placed (boots : log.Boots scope cursor batch) : batch.scope = scope := by
  obtain ⟨_, _, _, answered⟩ := boots
  exact answered.placed

theorem ScopeLog.Pulls.placed (pulls : log.Pulls scope cursor batch) : batch.scope = scope := by
  obtain ⟨_, _, _, answered⟩ := pulls
  exact answered.placed

theorem ScopeLog.Pulls.carries (pulls : log.Pulls scope cursor batch) :
    batch.Carries cursor (log.after cursor) := by
  obtain ⟨table, watermark, shown, answered⟩ := pulls
  refine answered.carries (fun limit page read => ?_) (log.after_offers cursor).within
  unfold changesAfterWatermark at read
  split at read
  · cases read
  · rwa [shown.selectChanges] at read

/-- A request under a ceiling from nothing up that does not wrap. -/
def PageRequest.Asks (request : PageRequest) (limit : Int64) : Prop :=
  0 ≤ limit ∧ ¬ limit + 1 < 0 ∧ limit.toInt.toNat = request.limit

/-- The pages of the compacted log are pages the database can serve. -/
theorem ScopeLog.bootstrap_boots (log : ScopeLog) {request : PageRequest} {limit : Int64}
    (asks : request.Asks limit) (protocol : ProtocolVersion) (scope : ScopeId) (cursor : Cursor) :
    log.Boots scope cursor (log.bootstrap request protocol scope cursor).toBatch := by
  obtain ⟨proper, room, same⟩ := asks
  have valid : ∀ change ∈ log.compacted cursor, change.validate = .ok () := fun change member =>
    log.valid change (mem_compacted.mp member).1
  have fits : ¬ bigintMax < cursor.get := Nat.not_lt.mpr cursor.upper
  refine ⟨log.table scope, Limits.seqMax, log.shown scope, limit,
    ⟨(log.compacted cursor).take request.limit, decide (request.limit < (log.compacted cursor).length)⟩,
    request.compressedLen, request.budgetBytes, (liveDigest log.changes).toHex, ?_, rfl⟩
  change bootstrapAfter (log.table scope) scope cursor.get limit Limits.seqMax = _
  rw [bootstrapAfter, if_neg fits, (log.shown scope).selectLatest, readPage_toRow valid proper room,
    same]

theorem ScopeLog.pull_pulls (log : ScopeLog) {request : PageRequest} {limit : Int64}
    (asks : request.Asks limit) (scope : ScopeId) (cursor : Cursor) :
    log.Pulls scope cursor (log.pull request scope cursor) := by
  obtain ⟨proper, room, same⟩ := asks
  have valid : ∀ change ∈ log.after cursor, change.validate = .ok () := fun change member =>
    log.valid change (mem_after.mp member).1
  have fits : ¬ bigintMax < cursor.get := Nat.not_lt.mpr cursor.upper
  refine ⟨log.table scope, Limits.seqMax, log.shown scope, limit,
    ⟨(log.after cursor).take request.limit, decide (request.limit < (log.after cursor).length)⟩,
    request.compressedLen, request.budgetBytes, (liveDigest log.changes).toHex, ?_, rfl⟩
  change changesAfterWatermark (log.table scope) scope cursor.get limit Limits.seqMax = _
  rw [changesAfterWatermark, if_neg fits, (log.shown scope).selectChanges,
    readPage_toRow valid proper room, same]

end Pages

end CredSync
