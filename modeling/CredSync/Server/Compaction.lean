import CredSync.Library.Run
import CredSync.Server.Query

/-! Walking a scope's log page by page while it grows: bootstrap pages over the
compacted log first, ordinary pulls after, each from where the last one ended. -/

namespace CredSync

/-- What a row map keeps of a change: snapshot, row version, schema version. -/
abbrev RowValue := Option Value × Int × Int

/-- A row of the log as one write of the row it names. -/
def ChangeRow.entry (row : ChangeRow) : KeyedLog.Entry (Bytes × Bytes) RowValue where
  seq := row.seq.toNat
  key := (row.entity, row.entityId)
  value := if row.op = "delete" then none else some (row.snapshot, row.rowVersion, row.schemaVersion)

/-- A page's changes as writes to a row map. -/
def Batch.entries (batch : Batch) : List (KeyedLog.Entry (Bytes × Bytes) RowValue) :=
  batch.changes.map fun change => change.toRow.entry

/-- The visible log of a scope as writes to a row map. -/
def logEntries (table : List SyncChange) (scope : ScopeId) (watermark : Int) :
    List (KeyedLog.Entry (Bytes × Bytes) RowValue) :=
  (scopeLog table scope watermark).map ChangeRow.entry

/-- A reader of one scope, and the database it reads. -/
structure Reader where
  table : List SyncChange
  watermark : Int
  cursor : Cursor := Cursor.start
  rows : KeyedLog.Holding (Bytes × Bytes) RowValue := fun _ => none
  joined : Bool := false

inductive ReadLabel where
  | grow
  | bootstrap (batch : Batch)
  | pull (batch : Batch)

/-- The batch a request was answered with. -/
def ReadLabel.batch : ReadLabel → Option Batch
  | .grow => none
  | .bootstrap batch | .pull batch => some batch

section Steps

variable [Hashing] (scope : ScopeId)

/-- The batch a page becomes under some ceiling, budget and compressor. -/
def Served (read : Int64 → Except ServerError Page) (cursor : Cursor) (batch : Batch) : Prop :=
  ∃ (limit : Int64) (page : Page) (compressedLen : Bytes → Nat) (budgetBytes : Nat)
    (digest : HexString), 0 < limit ∧ read limit = .ok page ∧
      batch = fillBatch compressedLen scope cursor page.changes page.moreBeyond budgetBytes digest

/-- One page request, or the log growing in between. Growth never touches what
is at or below the watermark; a bootstrap that has more is followed to its end
before ordinary pulls go on from its last cursor. -/
inductive Reader.Step : Reader → ReadLabel → Reader → Prop where
  | grow (reader : Reader) (table : List SyncChange) (watermark : Int)
      (sequenced : SequencedTable table) (forward : reader.watermark ≤ watermark)
      (settled : ∀ row : ChangeRow, row.seq ≤ reader.watermark →
        ((⟨scope.bytes, row⟩ : SyncChange) ∈ table ↔ ⟨scope.bytes, row⟩ ∈ reader.table)) :
      Step reader .grow { reader with table := table, watermark := watermark }
  | bootstrap (reader : Reader) (batch : Batch) (joining : reader.joined = false)
      (served : Served scope
        (fun limit => bootstrapAfter reader.table scope reader.cursor.get limit reader.watermark)
        reader.cursor batch) :
      Step reader (.bootstrap batch)
        { reader with
          cursor := batch.nextCursor
          rows := KeyedLog.replay reader.rows batch.entries
          joined := !batch.hasMore }
  | pull (reader : Reader) (batch : Batch) (joined : reader.joined = true)
      (served : Served scope
        (fun limit => changesAfterWatermark reader.table scope reader.cursor.get limit
          reader.watermark)
        reader.cursor batch) :
      Step reader (.pull batch)
        { reader with
          cursor := batch.nextCursor
          rows := KeyedLog.replay reader.rows batch.entries }

/-! ### One page -/

/-- Read under a positive ceiling, a batch has more exactly if rows are left, and
is empty only if there were none. -/
structure Batch.Heads (batch : Batch) (cursor : Cursor) (source rest : List ChangeRow) : Prop
    extends batch.Begins cursor source rest where
  hasMore : batch.hasMore = !rest.isEmpty
  progress : source ≠ [] → batch.changes ≠ []

variable {scope} {batch : Batch} {cursor : Cursor} {source rest : List ChangeRow}

theorem Served.heads {read : Int64 → Except ServerError Page}
    (served : Served scope read cursor batch)
    (reads : ∀ limit page, read limit = .ok page → ∃ rest, page.Reads limit source rest) :
    ∃ rest, batch.Heads cursor source rest := by
  obtain ⟨limit, page, compressedLen, budgetBytes, digest, positive, read, rfl⟩ := served
  obtain ⟨beyond, paged⟩ := reads limit page read
  obtain ⟨left, cut⟩ := fillBatch_cut compressedLen scope cursor page.changes page.moreBeyond
    budgetBytes digest
  generalize fillBatch compressedLen scope cursor page.changes page.moreBeyond budgetBytes digest =
    batch at cut ⊢
  refine ⟨left.map Change.toRow ++ beyond, cut.begins paged, ?_, fun present => ?_⟩
  · rw [cut.hasMore, paged.moreBeyond (Int64.le_of_lt positive)]
    cases left <;> rfl
  · exact cut.progress (paged.progress positive present)

omit [Hashing] in
/-- Everything in the source up to `next_cursor` is in the page, and everything
at all if the page has no more. -/
theorem Batch.Heads.carries (heads : batch.Heads cursor source rest)
    (ascending : source.Pairwise fun first second => first.seq < second.seq)
    (above : ∀ row ∈ source, (cursor.get : Int) < row.seq) {row : ChangeRow} (member : row ∈ source)
    (below : row.seq.toNat ≤ batch.nextCursor.get ∨ batch.hasMore = false) :
    row ∈ batch.changes.map Change.toRow := by
  rcases below with below | finished
  · exact (heads.holds ascending above row).mpr ⟨member, below⟩
  · rw [heads.hasMore, Bool.not_eq_false', List.isEmpty_iff] at finished
    rwa [heads.split, finished, List.append_nil] at member

/-! ### What a walk keeps -/

variable (scope) in
/-- The reader is settled at its cursor, which no later row can fall behind, and
holds nothing while it is still at the start. -/
structure Reader.Keeps (reader : Reader) : Prop where
  sequenced : SequencedTable reader.table
  settled : KeyedLog.Settled Set.univ reader.rows
    (logEntries reader.table scope reader.watermark) reader.cursor.get
  reached : reader.cursor.get = 0 ∨ (reader.cursor.get : Int) ≤ reader.watermark
  empty : reader.cursor.get = 0 → reader.rows = fun _ => none

variable {reader : Reader} {table : List SyncChange}

omit [Hashing] in
theorem SequencedTable.positions (sequenced : SequencedTable table) (scope : ScopeId)
    (watermark : Int) : KeyedLog.Ascending KeyedLog.Entry.seq (logEntries table scope watermark) := by
  refine List.pairwise_map.mpr ((sequenced.ascending scope watermark).imp_of_mem ?_)
  intro first second inside _ order
  have positive := sequenced.positive _ (mem_scopeLog.mp inside).1
  change first.seq.toNat < second.seq.toNat
  simp only at positive
  omega

omit [Hashing] in
theorem Batch.entries_eq (batch : Batch) :
    batch.entries = (batch.changes.map Change.toRow).map ChangeRow.entry := by
  rw [List.map_map]
  rfl

omit [Hashing] in
/-- Rows drawn from the log in order, none of them at or before the cursor, that
miss no row's latest change, advance a settled reader. -/
private theorem advances_of_rows {keys : Set (Bytes × Bytes)}
    {state : KeyedLog.Holding (Bytes × Bytes) RowValue} (sequenced : SequencedTable table)
    {watermark : Int} {low high : Nat} {taken : List ChangeRow}
    (within : taken.Sublist (scopeLog table scope watermark))
    (above : ∀ row ∈ taken, (low : Int) < row.seq)
    (complete : ∀ row ∈ scopeLog table scope watermark,
      KeyedLog.Latest (logEntries table scope watermark) row.entry → low < row.seq.toNat →
      row.seq.toNat ≤ high → row ∈ taken ∨
        row.entry.value = none ∧ state row.entry.key = none ∧
          ∀ other ∈ taken, other.entry.key ≠ row.entry.key) :
    KeyedLog.Advances keys state (logEntries table scope watermark) (taken.map ChangeRow.entry)
      low high where
  drawn := by
    intro entry member
    obtain ⟨row, inside, rfl⟩ := List.mem_map.mp member
    refine ⟨List.mem_map_of_mem (within.subset inside), ?_⟩
    have higher := above row inside
    change low < row.seq.toNat
    omega
  ascending := (sequenced.positions scope watermark).sublist (within.map ChangeRow.entry)
  complete := by
    intro entry latest _ after before
    obtain ⟨row, inside, rfl⟩ := List.mem_map.mp latest.1
    rcases complete row inside latest after before with carried | ⟨removed, missing, absent⟩
    · exact .inl (List.mem_map_of_mem carried)
    · refine .inr ⟨removed, missing, fun other member => ?_⟩
      obtain ⟨changed, taken, rfl⟩ := List.mem_map.mp member
      exact absent changed taken

omit [Hashing] in
/-- A row's latest change is what `DISTINCT ON` keeps of it. -/
private theorem mem_distinctOnRow (sequenced : SequencedTable table) {watermark : Int}
    {row : ChangeRow} (member : row ∈ scopeLog table scope watermark)
    (latest : KeyedLog.Latest (logEntries table scope watermark) row.entry) :
    row ∈ distinctOnRow (scopeLog table scope watermark) := by
  refine List.mem_filter.mpr ⟨member, List.all_eq_true.mpr fun other inside => ?_⟩
  by_cases same : other.entity = row.entity ∧ other.entityId = row.entityId
  · have key : other.entry.key = row.entry.key := by
      change (other.entity, other.entityId) = (row.entity, row.entityId)
      rw [same.1, same.2]
    have below := latest.2 other.entry (List.mem_map_of_mem inside) key
    have positive := sequenced.positive _ (mem_scopeLog.mp member).1
    have order : other.seq ≤ row.seq := by
      change other.seq.toNat ≤ row.seq.toNat at below
      simp only at positive
      omega
    simp [order]
  · simp only [Bool.or_eq_true, Bool.not_eq_true', Bool.and_eq_false_iff, decide_eq_false_iff_not]
    exact .inl (not_and_or.mp same)

omit [Hashing] in
/-- Of two rows kept for one key, each is the latest: they are the same row. -/
private theorem distinctOnRow_unique (sequenced : SequencedTable table) {watermark : Int}
    {first second : ChangeRow} (inFirst : first ∈ distinctOnRow (scopeLog table scope watermark))
    (inSecond : second ∈ distinctOnRow (scopeLog table scope watermark))
    (same : first.entry.key = second.entry.key) : first = second := by
  obtain ⟨member, highest⟩ := List.mem_filter.mp inFirst
  obtain ⟨member', highest'⟩ := List.mem_filter.mp inSecond
  obtain ⟨entity, entityId⟩ := Prod.mk.inj same
  have up := List.all_eq_true.mp highest second member'
  have down := List.all_eq_true.mp highest' first member
  simp only [entity, entityId, decide_true, Bool.and_self, Bool.not_true, Bool.false_or,
    decide_eq_true_eq] at up down
  have ascending := sequenced.ascending scope watermark
  have distinct : ((scopeLog table scope watermark).map ChangeRow.seq).Nodup :=
    List.pairwise_map.mpr (ascending.imp fun below => below.ne)
  exact List.inj_on_of_nodup_map distinct member member' (le_antisymm down up)

omit [Hashing] in
theorem mem_selectLatest (sequenced : SequencedTable table) {after : Nat} {watermark : Int}
    {row : ChangeRow} : row ∈ selectLatest table scope after watermark ↔
      row ∈ distinctOnRow (scopeLog table scope watermark) ∧ (after : Int) < row.seq ∧
        (row.op ≠ "delete" ∨ 0 < after) := by
  rw [selectLatest_eq sequenced, List.mem_filter]
  simp only [Bool.and_eq_true, Bool.or_eq_true, decide_eq_true_eq]

omit [Hashing] in
private theorem Batch.Heads.sublist (heads : batch.Heads cursor source rest) :
    (batch.changes.map Change.toRow).Sublist source := by
  rw [heads.split]
  exact List.sublist_append_left _ _

omit [Hashing] in
/-- A bootstrap page advances its reader: the compacted log misses no row's
latest change but tombstones, and those only while the reader holds nothing. -/
theorem Reader.Keeps.bootstrap (keeps : reader.Keeps scope)
    (heads : batch.Heads reader.cursor
      (selectLatest reader.table scope reader.cursor.get reader.watermark) rest) {high : Nat}
    (reach : high ≤ batch.nextCursor.get ∨ batch.hasMore = false) :
    KeyedLog.Advances Set.univ reader.rows (logEntries reader.table scope reader.watermark)
      batch.entries reader.cursor.get high := by
  have source := selectLatest_eq keeps.sequenced scope reader.cursor.get reader.watermark
  have within : (selectLatest reader.table scope reader.cursor.get reader.watermark).Sublist
      (scopeLog reader.table scope reader.watermark) := by
    rw [source]
    exact List.filter_sublist.trans List.filter_sublist
  have ascending := (keeps.sequenced.ascending scope reader.watermark).sublist within
  have above : ∀ row ∈ selectLatest reader.table scope reader.cursor.get reader.watermark,
      (reader.cursor.get : Int) < row.seq :=
    fun row member => ((mem_selectLatest keeps.sequenced).mp member).2.1
  rw [batch.entries_eq]
  refine advances_of_rows keeps.sequenced (heads.sublist.trans within)
    (fun row member => above row (heads.sublist.subset member)) ?_
  intro row member latest after before
  have kept := mem_distinctOnRow keeps.sequenced member latest
  have later : (reader.cursor.get : Int) < row.seq := by omega
  by_cases shown : row.op ≠ "delete" ∨ 0 < reader.cursor.get
  · left
    refine heads.carries ascending above
      ((mem_selectLatest keeps.sequenced).mpr ⟨kept, later, shown⟩) ?_
    exact reach.imp (fun bound => before.trans bound) id
  · obtain ⟨deleted, start⟩ := not_or.mp shown
    refine .inr ⟨if_pos (not_not.mp deleted), ?_, fun other taken same => ?_⟩
    · rw [keeps.empty (Nat.eq_zero_of_not_pos start)]
    · have inside := (mem_selectLatest keeps.sequenced).mp (heads.sublist.subset taken)
      have equal := distinctOnRow_unique keeps.sequenced inside.1 kept same
      rw [equal] at inside
      exact shown inside.2.2

omit [Hashing] in
/-- An ordinary page advances its reader: it carries every change it passes. -/
theorem Reader.Keeps.pull (keeps : reader.Keeps scope)
    (heads : batch.Heads reader.cursor
      (selectChanges reader.table scope reader.cursor.get reader.watermark) rest) {high : Nat}
    (reach : high ≤ batch.nextCursor.get ∨ batch.hasMore = false) :
    KeyedLog.Advances Set.univ reader.rows (logEntries reader.table scope reader.watermark)
      batch.entries reader.cursor.get high := by
  have source := selectChanges_eq keeps.sequenced scope reader.cursor.get reader.watermark
  rw [source] at heads
  have ascending := (keeps.sequenced.ascending scope reader.watermark).filter
    fun row => (reader.cursor.get : Int) < row.seq
  have above : ∀ row ∈ (scopeLog reader.table scope reader.watermark).filter
      (fun row => (reader.cursor.get : Int) < row.seq), (reader.cursor.get : Int) < row.seq :=
    fun row member => of_decide_eq_true (List.mem_filter.mp member).2
  rw [batch.entries_eq]
  refine advances_of_rows keeps.sequenced (heads.sublist.trans List.filter_sublist)
    (fun row member => above row (heads.sublist.subset member)) ?_
  intro row member _ after before
  have later : (reader.cursor.get : Int) < row.seq := by omega
  exact .inl (heads.carries ascending above (List.mem_filter.mpr ⟨member, decide_eq_true later⟩)
    (reach.imp (fun bound => before.trans bound) id))

omit [Hashing] in
/-- What a walk keeps over one page, either kind. -/
private theorem Reader.Keeps.page (keeps : reader.Keeps scope)
    (heads : batch.Heads reader.cursor source rest)
    (drawn : ∀ row ∈ source, row ∈ scopeLog reader.table scope reader.watermark ∧
      (reader.cursor.get : Int) < row.seq)
    (advances : KeyedLog.Advances Set.univ reader.rows
      (logEntries reader.table scope reader.watermark) batch.entries reader.cursor.get
      batch.nextCursor.get) (joined : Bool) :
    Reader.Keeps scope { reader with
      cursor := batch.nextCursor
      rows := KeyedLog.replay reader.rows batch.entries
      joined := joined } := by
  have ended := KeyedLog.reached_eq_low_or_mem (fun row : ChangeRow => row.seq.toNat)
    reader.cursor.get (batch.changes.map Change.toRow)
  rw [← heads.nextCursor] at ended
  refine ⟨keeps.sequenced,
    keeps.settled.advance (keeps.sequenced.positions scope reader.watermark) advances, ?_, ?_⟩
  · rcases ended with ⟨_, same⟩ | ⟨row, member, same⟩
    · change batch.nextCursor.get = 0 ∨ (batch.nextCursor.get : Int) ≤ reader.watermark
      rw [same]
      exact keeps.reached
    · obtain ⟨inside, after⟩ := drawn row (heads.sublist.subset member)
      have below := (mem_scopeLog.mp inside).2
      right
      change (batch.nextCursor.get : Int) ≤ reader.watermark
      omega
  · intro start
    change batch.nextCursor.get = 0 at start
    rcases ended with ⟨nothing, same⟩ | ⟨row, member, same⟩
    · change KeyedLog.replay reader.rows batch.entries = _
      rw [batch.entries_eq, nothing]
      exact keeps.empty (same ▸ start)
    · have after := (drawn row (heads.sublist.subset member)).2
      omega

omit [Hashing] in
theorem Reader.Keeps.grow (keeps : reader.Keeps scope) (sequenced : SequencedTable table)
    {watermark : Int} (forward : reader.watermark ≤ watermark)
    (settled : ∀ row : ChangeRow, row.seq ≤ reader.watermark →
      ((⟨scope.bytes, row⟩ : SyncChange) ∈ table ↔ ⟨scope.bytes, row⟩ ∈ reader.table)) :
    Reader.Keeps scope { reader with table := table, watermark := watermark } := by
  -- what was visible is still there, and the rest lies above the old watermark
  have split := scopeLog_append sequenced scope forward
  rw [scopeLog_congr sequenced keeps.sequenced scope settled] at split
  refine ⟨sequenced, ?_, keeps.reached.imp_right fun below => below.trans forward, keeps.empty⟩
  change KeyedLog.Settled Set.univ reader.rows (logEntries table scope watermark) reader.cursor.get
  rw [logEntries, ← split, List.map_append]
  refine keeps.settled.grow fun entry member => ?_
  obtain ⟨row, inside, rfl⟩ := List.mem_map.mp member
  obtain ⟨visible, above⟩ := List.mem_filter.mp inside
  have higher : reader.watermark < row.seq := of_decide_eq_true above
  have positive := sequenced.positive _ (mem_scopeLog.mp visible).1
  change reader.cursor.get < row.seq.toNat
  simp only at positive
  rcases keeps.reached with start | below <;> omega

theorem Served.bootstrap_heads {scope : ScopeId}
    (served : Served scope
      (fun limit => bootstrapAfter reader.table scope reader.cursor.get limit reader.watermark)
      reader.cursor batch) : ∃ rest, batch.Heads reader.cursor
        (selectLatest reader.table scope reader.cursor.get reader.watermark) rest := by
  refine served.heads fun limit page read => ?_
  unfold bootstrapAfter at read
  split at read
  · cases read
  · exact readPage_ok read

theorem Served.pull_heads {scope : ScopeId}
    (served : Served scope
      (fun limit => changesAfterWatermark reader.table scope reader.cursor.get limit
        reader.watermark)
      reader.cursor batch) : ∃ rest, batch.Heads reader.cursor
        (selectChanges reader.table scope reader.cursor.get reader.watermark) rest := by
  refine served.heads fun limit page read => ?_
  unfold changesAfterWatermark at read
  split at read
  · cases read
  · exact readPage_ok read

variable {after : Reader}

/-- What one step of a walk keeps; and a page with nothing more leaves exactly
the rows live at its watermark, while any other moves the cursor. -/
theorem Reader.Step.keeps (step : Reader.Step scope reader label after)
    (keeps : reader.Keeps scope) :
    after.Keeps scope ∧ ∀ batch ∈ label.batch,
      (batch.hasMore = false →
        after.rows = KeyedLog.live (logEntries after.table scope after.watermark)) ∧
      (batch.hasMore = true → reader.cursor.get < after.cursor.get) := by
  -- the last page reaches past every row of the log
  have finish : ∀ (batch : Batch), (∀ high, KeyedLog.Advances Set.univ reader.rows
      (logEntries reader.table scope reader.watermark) batch.entries reader.cursor.get high) →
      KeyedLog.replay reader.rows batch.entries =
        KeyedLog.live (logEntries reader.table scope reader.watermark) := by
    intro batch advances
    funext key
    have ordered := keeps.sequenced.positions scope reader.watermark
    exact (keeps.settled.advance ordered (advances (KeyedLog.reached KeyedLog.Entry.seq 0
      (logEntries reader.table scope reader.watermark)))).total
        (fun entry member => ordered.le_reached member) (Set.mem_univ key)
  -- a page that has more carried something, and all it carries is past the cursor
  have moves : ∀ (batch : Batch) source rest, batch.Heads reader.cursor source rest →
      (∀ row ∈ source, (reader.cursor.get : Int) < row.seq) → batch.hasMore = true →
      reader.cursor.get < batch.nextCursor.get := by
    intro batch source rest heads above more
    have present : source ≠ [] := by
      rw [heads.hasMore, Bool.not_eq_true', List.isEmpty_eq_false_iff] at more
      rw [heads.split]
      exact fun empty => more (List.append_eq_nil_iff.mp empty).2
    rcases KeyedLog.reached_eq_low_or_mem (fun row : ChangeRow => row.seq.toNat)
      reader.cursor.get (batch.changes.map Change.toRow) with ⟨nothing, _⟩ | ⟨row, member, same⟩
    · exact absurd (List.map_eq_nil_iff.mp nothing) (heads.progress present)
    · have positive := above row (heads.sublist.subset member)
      rw [heads.nextCursor, same]
      omega
  cases step with
  | grow table watermark sequenced forward settled =>
    exact ⟨keeps.grow sequenced forward settled, fun batch impossible => nomatch impossible⟩
  | bootstrap batch joining served =>
    obtain ⟨rest, heads⟩ := served.bootstrap_heads
    have drawn : ∀ row ∈ selectLatest reader.table scope reader.cursor.get reader.watermark,
        row ∈ scopeLog reader.table scope reader.watermark ∧
          (reader.cursor.get : Int) < row.seq := by
      intro row member
      obtain ⟨kept, after, _⟩ := (mem_selectLatest keeps.sequenced).mp member
      exact ⟨(List.mem_filter.mp kept).1, after⟩
    refine ⟨keeps.page heads drawn (keeps.bootstrap heads (.inl le_rfl)) _, fun other same => ?_⟩
    cases same
    exact ⟨fun finished => finish batch fun high => keeps.bootstrap heads (.inr finished),
      moves batch _ _ heads fun row member => (drawn row member).2⟩
  | pull batch joined served =>
    obtain ⟨rest, heads⟩ := served.pull_heads
    have drawn : ∀ row ∈ selectChanges reader.table scope reader.cursor.get reader.watermark,
        row ∈ scopeLog reader.table scope reader.watermark ∧
          (reader.cursor.get : Int) < row.seq := by
      intro row member
      rw [selectChanges_eq keeps.sequenced] at member
      obtain ⟨inside, after⟩ := List.mem_filter.mp member
      exact ⟨inside, of_decide_eq_true after⟩
    refine ⟨keeps.page heads drawn (keeps.pull heads (.inl le_rfl)) _, fun other same => ?_⟩
    cases same
    exact ⟨fun finished => finish batch fun high => keeps.pull heads (.inr finished),
      moves batch _ _ heads fun row member => (drawn row member).2⟩

/-- Bootstrap pages from the start, then ordinary pulls from where they ended,
while the log grows: a page that has nothing more leaves exactly the rows live in
the log at its watermark, and one that has more moves the cursor on. -/
theorem walk_holds_live_rows (table : List SyncChange) (watermark : Int)
    (labels : List ReadLabel) (before after : Reader) (label : ReadLabel) (batch : Batch)
    (sequenced : SequencedTable table)
    (run : Transition.Run (Reader.Step scope) { table, watermark } labels before)
    (last : Reader.Step scope before label after) (answered : label.batch = some batch) :
    (batch.hasMore = false →
      after.rows = KeyedLog.live (logEntries after.table scope after.watermark)) ∧
    (batch.hasMore = true → before.cursor.get < after.cursor.get) := by
  have start : Reader.Keeps scope { table, watermark } := by
    refine ⟨sequenced, KeyedLog.Settled.empty (fun _ _ => rfl) fun entry member => ?_,
      .inl rfl, fun _ => rfl⟩
    obtain ⟨row, inside, rfl⟩ := List.mem_map.mp member
    have positive := sequenced.positive _ (mem_scopeLog.mp inside).1
    change 0 < row.seq.toNat
    simp only at positive
    omega
  have steps : ∀ reader label after, Reader.Keeps scope reader →
      Reader.Step scope reader label after → Reader.Keeps scope after :=
    fun reader label after keeps step => (step.keeps keeps).1
  have keeps := run.invariant steps start
  exact (last.keeps keeps).2 batch answered

end Steps

namespace Sample

attribute [local instance] noteHashes

/-- One note, and another that was deleted again. -/
def noteTable : List SyncChange :=
  [⟨scope.bytes, noteA.toRow⟩, ⟨scope.bytes, noteB.toRow⟩,
    ⟨scope.bytes, { noteB.toRow with seq := 3, op := "delete", snapshot := none }⟩]

theorem noteTable_bootstraps : ∃ (batch : Batch) (after : Reader),
    Reader.Step scope { table := noteTable, watermark := 3 } (.bootstrap batch) after ∧
    batch.hasMore = false ∧
    after.rows = KeyedLog.live (logEntries after.table scope after.watermark) := by
  have read : ((bootstrapAfter noteTable scope 0 500 3).toOption.any fun page =>
      !(fillBatch List.length scope Cursor.start page.changes page.moreBeyond 4096
        (hexU128 0)).hasMore) = true := by
    decide +kernel
  obtain ⟨page, found, finished⟩ := (Option.any_eq_true ..).mp read
  have served : bootstrapAfter noteTable scope 0 500 3 = .ok page := by
    cases outcome : bootstrapAfter noteTable scope 0 500 3 with
    | error e =>
      rw [outcome] at found
      cases found
    | ok other =>
      rw [outcome] at found
      exact congrArg Except.ok (Option.some.inj found)
  let batch := fillBatch List.length scope Cursor.start page.changes page.moreBeyond 4096 (hexU128 0)
  have last : Reader.Step scope { table := noteTable, watermark := 3 } (.bootstrap batch) _ :=
    .bootstrap { table := noteTable, watermark := 3 } batch rfl
      ⟨500, page, List.length, 4096, hexU128 0, by decide, served, rfl⟩
  have whole : batch.hasMore = false := by simpa [batch] using finished
  exact ⟨batch, _, last, whole, (walk_holds_live_rows noteTable 3 [] _ _ _ batch
    ⟨by decide, by decide⟩ .done last rfl).1 whole⟩

end Sample

end CredSync
