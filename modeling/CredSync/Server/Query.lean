import CredSync.Server.Pull
import Mathlib.Data.List.Sort

/-! The two reads of the change log, up to a watermark: the changes of a scope
after a cursor, and the latest change of each of its rows. -/

namespace CredSync

/-- A row of `sync_changes` with the scope it was written to. -/
structure SyncChange where
  scope : Bytes
  row : ChangeRow

def bigintMax : Nat := 2 ^ 63 - 1

/-- `ORDER BY seq ASC`. -/
def orderBySeq (rows : List ChangeRow) : List ChangeRow :=
  rows.insertionSort fun first second => first.seq ≤ second.seq

/-- `DISTINCT ON (entity, entity_id) … ORDER BY entity, entity_id, seq DESC`: of
each row its change with the highest `seq`. -/
def distinctOnRow (rows : List ChangeRow) : List ChangeRow :=
  rows.filter fun row => rows.all fun other =>
    !(other.entity = row.entity && other.entityId = row.entityId) || decide (other.seq ≤ row.seq)

/-- `WHERE scope = $1 AND seq <= watermark`. -/
def visibleRows (table : List SyncChange) (scope : ScopeId) (watermark : Int) : List ChangeRow :=
  (table.filter fun change => change.scope = scope.bytes && decide (change.row.seq ≤ watermark)).map
    (·.row)

def selectChanges (table : List SyncChange) (scope : ScopeId) (cursor : Nat) (watermark : Int) :
    List ChangeRow :=
  orderBySeq ((visibleRows table scope watermark).filter fun row => (cursor : Int) < row.seq)

def selectLatest (table : List SyncChange) (scope : ScopeId) (after : Nat) (watermark : Int) :
    List ChangeRow :=
  orderBySeq ((distinctOnRow (visibleRows table scope watermark)).filter fun row =>
    decide ((after : Int) < row.seq) && (row.op ≠ "delete" || decide (0 < after)))

/-- One page of changes, and whether the row ceiling cut it short. -/
structure Page where
  changes : List Change
  moreBeyond : Bool

/-- `LIMIT limit + 1`, the ceiling, and the conversion of every row. The sum wraps
at the last `i64`, and a negative `LIMIT` is refused. -/
def readPage (limit : Int64) (rows : List ChangeRow) : Except ServerError Page :=
  if limit + 1 < 0 then .error (.database "db error: ERROR: LIMIT must not be negative")
  else
    let read := rows.take (limit + 1).toInt.toNat
    let kept := if 0 ≤ limit then read.take limit.toInt.toNat else read
    match kept.mapM ChangeRow.intoChange with
    | .error e => .error e
    | .ok changes => .ok ⟨changes, decide (limit.toInt < read.length)⟩

/-- `changes_after_watermark`. -/
def changesAfterWatermark (table : List SyncChange) (scope : ScopeId) (cursor : Nat)
    (limit : Int64) (watermark : Int) : Except ServerError Page :=
  if bigintMax < cursor then .error (.corrupt s!"cursor {cursor} does not fit a bigint")
  else readPage limit (selectChanges table scope cursor watermark)

/-- `bootstrap_after`, once its watermark is known. -/
def bootstrapAfter (table : List SyncChange) (scope : ScopeId) (after : Nat) (limit : Int64)
    (watermark : Int) : Except ServerError Page :=
  if bigintMax < after then .error (.corrupt s!"bootstrap cursor {after} does not fit a bigint")
  else readPage limit (selectLatest table scope after watermark)

/-! ### What a page holds -/

theorem orderBySeq_perm (rows : List ChangeRow) : (orderBySeq rows).Perm rows :=
  List.perm_insertionSort _ rows

theorem mem_orderBySeq : row ∈ orderBySeq rows ↔ row ∈ rows :=
  (orderBySeq_perm rows).mem_iff

/-- Rows with distinct positions come out in ascending order. -/
theorem orderBySeq_ascending (rows : List ChangeRow)
    (distinct : (rows.map ChangeRow.seq).Nodup) :
    (orderBySeq rows).Pairwise fun first second => first.seq < second.seq := by
  have sorted : (orderBySeq rows).Pairwise fun first second => first.seq ≤ second.seq :=
    List.pairwise_insertionSort _ rows
  have apart : (orderBySeq rows).Pairwise fun first second => first.seq ≠ second.seq :=
    List.pairwise_map.mp (((orderBySeq_perm rows).map ChangeRow.seq).nodup_iff.mpr distinct)
  exact sorted.imp₂ (fun _ _ below different => lt_of_le_of_ne below different) apart

theorem mapM_intoChange_ok {rows : List ChangeRow} {changes : List Change}
    (converted : rows.mapM ChangeRow.intoChange = .ok changes) :
    changes.map Change.toRow = rows ∧ ∀ change ∈ changes, change.validate = .ok () := by
  induction rows generalizing changes with
  | nil =>
    cases converted
    exact ⟨rfl, fun change member => nomatch member⟩
  | cons row rest ih =>
    rw [List.mapM_cons] at converted
    cases first : row.intoChange with
    | error e =>
      rw [first] at converted
      cases converted
    | ok change =>
      rw [first] at converted
      cases others : rest.mapM ChangeRow.intoChange with
      | error e =>
        rw [others] at converted
        cases converted
      | ok later =>
        rw [others] at converted
        cases converted
        obtain ⟨said, valid⟩ := ChangeRow.intoChange_ok first
        obtain ⟨rest, allValid⟩ := ih others
        refine ⟨by rw [List.map_cons, said, rest], fun other member => ?_⟩
        rcases List.mem_cons.mp member with rfl | member
        · exact valid
        · exact allValid other member

/-- A page holds the first of its rows, converted; from a positive ceiling on it
holds some while there are any, and says whether any are left. -/
structure Page.Reads (page : Page) (limit : Int64) (rows rest : List ChangeRow) : Prop where
  split : rows = page.changes.map Change.toRow ++ rest
  valid : ∀ change ∈ page.changes, change.validate = .ok ()
  moreBeyond : 0 ≤ limit → page.moreBeyond = !rest.isEmpty
  progress : 0 < limit → rows ≠ [] → page.changes ≠ []

/-- A sum that is not negative did not wrap. -/
theorem toInt_succ {limit : Int64} (allowed : ¬ limit + 1 < 0) :
    (limit + 1).toInt = limit.toInt + 1 ∧ -1 ≤ limit.toInt := by
  have low := limit.le_toInt
  have high := limit.toInt_lt
  rw [Int64.lt_iff_toInt_lt, Int64.toInt_add, Int64.toInt_one, Int64.toInt_zero] at allowed
  rw [Int64.toInt_add, Int64.toInt_one]
  simp only [Int.bmod] at allowed ⊢
  omega

theorem readPage_ok {limit : Int64} {rows : List ChangeRow} {page : Page}
    (read : readPage limit rows = .ok page) : ∃ rest, page.Reads limit rows rest := by
  unfold readPage at read
  split at read
  · cases read
  · rename_i allowed
    obtain ⟨succ, low⟩ := toInt_succ allowed
    simp only [succ] at read
    split at read
    · cases read
    · rename_i changes converted
      cases read
      obtain ⟨said, valid⟩ := mapM_intoChange_ok converted
      by_cases positive : 0 ≤ limit
      · have bound : 0 ≤ limit.toInt := by
          rwa [Int64.le_iff_toInt_le, Int64.toInt_zero] at positive
        obtain ⟨ceiling, same⟩ := Int.eq_ofNat_of_zero_le bound
        have asked : (limit.toInt + 1).toNat = ceiling + 1 := by omega
        have kept : limit.toInt.toNat = ceiling := by omega
        rw [if_pos positive, asked, kept, List.take_take, Nat.min_eq_left (Nat.le_succ ceiling)] at said
        refine ⟨rows.drop ceiling, by rw [said, List.take_append_drop], valid, fun _ => ?_, ?_⟩
        · have more : decide (limit.toInt < ((rows.take (ceiling + 1)).length : Int)) =
              !(rows.drop ceiling).isEmpty := by
            rw [Bool.eq_iff_iff, decide_eq_true_iff, Bool.not_eq_true', List.isEmpty_eq_false_iff,
              List.length_take, same, ← List.length_pos_iff, List.length_drop]
            omega
          rw [asked]
          exact more
        · intro proper present empty
          rw [Int64.lt_iff_toInt_lt, Int64.toInt_zero] at proper
          simp only at empty
          rw [empty, List.map_nil] at said
          have taken := congrArg List.length said
          have some := List.length_pos_iff.mpr present
          rw [List.length_nil, List.length_take] at taken
          omega
      · have bound : ¬ 0 ≤ limit.toInt := by
          rwa [Int64.le_iff_toInt_le, Int64.toInt_zero] at positive
        have asked : (limit.toInt + 1).toNat = 0 := by omega
        rw [if_neg positive, asked, List.take_zero] at said
        refine ⟨rows, by rw [said]; rfl, valid, fun impossible => absurd impossible positive, ?_⟩
        intro impossible
        exact absurd (Int64.le_of_lt impossible) positive

/-! ### The visible log of a scope -/

/-- What the schema promises of the table: one row for each `seq`, counted from one. -/
structure SequencedTable (table : List SyncChange) : Prop where
  distinct : (table.map fun change => change.row.seq).Nodup
  positive : ∀ change ∈ table, 0 < change.row.seq

/-- A scope's change log as a reader sees it up to a watermark. -/
def scopeLog (table : List SyncChange) (scope : ScopeId) (watermark : Int) : List ChangeRow :=
  orderBySeq (visibleRows table scope watermark)

variable {table : List SyncChange}

theorem mem_visibleRows : row ∈ visibleRows table scope watermark ↔
    ⟨scope.bytes, row⟩ ∈ table ∧ row.seq ≤ watermark := by
  simp only [visibleRows, List.mem_map, List.mem_filter, Bool.and_eq_true, decide_eq_true_eq]
  constructor
  · rintro ⟨⟨text, row⟩, ⟨member, rfl, below⟩, rfl⟩
    exact ⟨member, below⟩
  · rintro ⟨member, below⟩
    exact ⟨_, ⟨member, rfl, below⟩, rfl⟩

theorem mem_scopeLog : row ∈ scopeLog table scope watermark ↔
    ⟨scope.bytes, row⟩ ∈ table ∧ row.seq ≤ watermark := by
  rw [scopeLog, mem_orderBySeq, mem_visibleRows]

theorem SequencedTable.visible (sequenced : SequencedTable table) (scope : ScopeId)
    (watermark : Int) : ((visibleRows table scope watermark).map ChangeRow.seq).Nodup := by
  rw [visibleRows, List.map_map]
  exact sequenced.distinct.sublist (List.filter_sublist.map _)

theorem SequencedTable.ascending (sequenced : SequencedTable table) (scope : ScopeId)
    (watermark : Int) :
    (scopeLog table scope watermark).Pairwise fun first second => first.seq < second.seq :=
  orderBySeq_ascending _ (sequenced.visible scope watermark)

/-- Lists in ascending order are the same when they hold the same rows. -/
theorem eq_of_ascending {first second : List ChangeRow}
    (ascending : first.Pairwise fun first second => first.seq < second.seq)
    (ascending' : second.Pairwise fun first second => first.seq < second.seq)
    (same : ∀ row, row ∈ first ↔ row ∈ second) : first = second := by
  have _ : Std.Asymm fun first second : ChangeRow => first.seq < second.seq :=
    ⟨fun _ _ => Int.lt_asymm⟩
  exact List.Pairwise.eq_of_mem_iff ascending ascending' same

/-- Two tables that agree up to a watermark show a scope the same log there. -/
theorem scopeLog_congr {first second : List SyncChange} (sequenced : SequencedTable first)
    (sequenced' : SequencedTable second) (scope : ScopeId) {watermark : Int}
    (same : ∀ row : ChangeRow, row.seq ≤ watermark →
      ((⟨scope.bytes, row⟩ : SyncChange) ∈ first ↔ ⟨scope.bytes, row⟩ ∈ second)) :
    scopeLog first scope watermark = scopeLog second scope watermark := by
  refine eq_of_ascending (sequenced.ascending scope watermark) (sequenced'.ascending scope watermark)
    fun row => ?_
  rw [mem_scopeLog, mem_scopeLog]
  exact and_congr_left fun below => same row below

/-- The log up to a watermark goes on from the log up to a lower one. -/
theorem scopeLog_append (sequenced : SequencedTable table) (scope : ScopeId) {low high : Int}
    (ordered : low ≤ high) : scopeLog table scope low ++
      (scopeLog table scope high).filter (low < ·.seq) = scopeLog table scope high := by
  refine eq_of_ascending (List.pairwise_append.mpr ⟨sequenced.ascending scope low,
    (sequenced.ascending scope high).filter _, fun earlier before later after => ?_⟩)
    (sequenced.ascending scope high) fun row => ?_
  · have above : low < later.seq := of_decide_eq_true (List.mem_filter.mp after).2
    exact (mem_scopeLog.mp before).2.trans_lt above
  · rw [List.mem_append, List.mem_filter, mem_scopeLog, mem_scopeLog, decide_eq_true_iff]
    constructor
    · rintro (⟨member, below⟩ | ⟨inside, _⟩)
      · exact ⟨member, below.trans ordered⟩
      · exact inside
    · rintro ⟨member, below⟩
      by_cases early : row.seq ≤ low
      · exact .inl ⟨member, early⟩
      · exact .inr ⟨⟨member, below⟩, not_le.mp early⟩

/-- Sorting after a selection or before it gives the same rows. -/
private theorem orderBySeq_filter (rows : List ChangeRow) (test : ChangeRow → Bool)
    (distinct : (rows.map ChangeRow.seq).Nodup) :
    orderBySeq (rows.filter test) = (orderBySeq rows).filter test := by
  have perm : (orderBySeq (rows.filter test)).Perm ((orderBySeq rows).filter test) :=
    (orderBySeq_perm _).trans ((orderBySeq_perm rows).filter test).symm
  have first := orderBySeq_ascending (rows.filter test)
    (distinct.sublist (List.filter_sublist.map _))
  have second := (orderBySeq_ascending rows distinct).filter test
  exact perm.eq_of_pairwise (fun _ _ _ _ below above => absurd below (not_lt.mpr above.le)) first second

theorem selectChanges_eq (sequenced : SequencedTable table) (scope : ScopeId) (cursor : Nat)
    (watermark : Int) : selectChanges table scope cursor watermark =
      (scopeLog table scope watermark).filter fun row => (cursor : Int) < row.seq :=
  orderBySeq_filter _ _ (sequenced.visible scope watermark)

/-- `DISTINCT ON` asks the same of each row, whatever the order of the others. -/
private theorem distinctOnRow_eq (first second : List ChangeRow) (perm : first.Perm second) :
    distinctOnRow first = first.filter fun row => second.all fun other =>
      !(other.entity = row.entity && other.entityId = row.entityId) ||
        decide (other.seq ≤ row.seq) := by
  apply List.filter_congr
  intro row _
  rw [Bool.eq_iff_iff, List.all_eq_true, List.all_eq_true]
  exact ⟨fun holds other member => holds other (perm.mem_iff.mpr member),
    fun holds other member => holds other (perm.mem_iff.mp member)⟩

theorem selectLatest_eq (sequenced : SequencedTable table) (scope : ScopeId) (after : Nat)
    (watermark : Int) : selectLatest table scope after watermark =
      (distinctOnRow (scopeLog table scope watermark)).filter fun row =>
        decide ((after : Int) < row.seq) && (row.op ≠ "delete" || decide (0 < after)) := by
  have visible := sequenced.visible scope watermark
  have perm := (orderBySeq_perm (visibleRows table scope watermark)).symm
  rw [selectLatest, distinctOnRow_eq _ _ perm, List.filter_filter, orderBySeq_filter _ _ visible,
    ← List.filter_filter]
  rfl

/-! ### A batch of a page -/

/-- A batch holds the first of the rows its page was read from, and ends with the
last of them. -/
structure Batch.Begins (batch : Batch) (cursor : Cursor) (source rest : List ChangeRow) : Prop where
  split : source = batch.changes.map Change.toRow ++ rest
  nextCursor : batch.nextCursor.get =
    KeyedLog.reached (fun row : ChangeRow => row.seq.toNat) cursor.get
      (batch.changes.map Change.toRow)

theorem Batch.Cut.begins {batch : Batch} {page : Page} {scope : ScopeId} {digest : HexString}
    (cut : batch.Cut scope cursor page.changes left more digest)
    (reads : page.Reads limit source beyond) :
    batch.Begins cursor source (left.map Change.toRow ++ beyond) where
  split := by rw [reads.split, cut.split, List.map_append, List.append_assoc]
  nextCursor := by
    rw [cut.nextCursor, KeyedLog.reached, KeyedLog.reached, List.getLast?_map, Option.map_map]
    rfl

/-- What a batch holds are the rows of its source up to `next_cursor`. -/
theorem Batch.Begins.holds {batch : Batch} {cursor : Cursor} {source rest : List ChangeRow}
    (begins : batch.Begins cursor source rest)
    (ascending : source.Pairwise fun first second => first.seq < second.seq)
    (above : ∀ row ∈ source, (cursor.get : Int) < row.seq) (row : ChangeRow) :
    row ∈ batch.changes.map Change.toRow ↔ row ∈ source ∧ row.seq.toNat ≤ batch.nextCursor.get := by
  have positions : KeyedLog.Ascending (fun row : ChangeRow => row.seq.toNat) source := by
    refine ascending.imp_of_mem ?_
    intro first second inside _ order
    have positive := above first inside
    change first.seq.toNat < second.seq.toNat
    omega
  have higher : ∀ row ∈ source, cursor.get < row.seq.toNat := by
    intro row member
    have positive := above row member
    omega
  rw [begins.split] at positions higher
  have cut := positions.cut higher
  rw [← begins.nextCursor, ← begins.split] at cut
  exact (iff_of_eq (congrArg (row ∈ ·) cut)).trans KeyedLog.mem_upTo

/-- A page's batch ends no earlier than it was asked from. -/
theorem Batch.Begins.forward {batch : Batch} {cursor : Cursor} {source rest : List ChangeRow}
    (begins : batch.Begins cursor source rest)
    (above : ∀ row ∈ source, (cursor.get : Int) < row.seq) : cursor.get ≤ batch.nextCursor.get := by
  rw [begins.nextCursor]
  refine KeyedLog.le_reached_of_above fun row member => ?_
  have higher := above row (begins.split ▸ List.mem_append_left _ member)
  omega

end CredSync
