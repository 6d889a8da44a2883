import CredSync.Core.ApplySpec
import CredSync.Server.Query

/-! An honest server's side of a scope: a change log that only grows, and the pull
and bootstrap responses computed from it. -/

namespace CredSync

/-- A scope's change log: valid changes in the order of their `seq`. -/
structure ScopeLog where
  changes : List Change := []
  ascending : KeyedLog.Ascending (fun change : Change => change.seq.get) changes := by
    exact List.Pairwise.nil
  valid : ∀ change ∈ changes, change.validate = .ok () := by
    exact fun change member => nomatch member

def ScopeLog.empty : ScopeLog := {}

/-- What a request asks of a page. -/
structure PageRequest where
  limit : Nat
  budgetBytes : Nat
  compressedLen : Bytes → Nat

/-- Whether a change is its row's latest. -/
def isLatest (changes : List Change) (change : Change) : Bool :=
  changes.all fun other => other.key ≠ change.key || decide (other.seq.get ≤ change.seq.get)

section Digest

variable [Hashing]

/-- The digest of the rows a list of changes leaves live. -/
def liveDigest (changes : List Change) : ScopeDigest :=
  ScopeDigest.fromRows
    ((KeyedLog.liveTable (changes.map Change.entry)).entries.map fun row => (row.1.1, row.1.2, row.2))

/-- One page of a source: the ceiling first, then the byte budget. -/
def servePage (request : PageRequest) (scope : ScopeId) (cursor : Cursor) (source : List Change)
    (digest : HexString) : Batch :=
  fillBatch request.compressedLen scope cursor (source.take request.limit)
    (decide (request.limit < source.length)) request.budgetBytes digest

end Digest

namespace ScopeLog

def append (log : ScopeLog) (change : Change)
    (newer : ∀ earlier ∈ log.changes, earlier.seq.get < change.seq.get)
    (valid : change.validate = .ok ()) : ScopeLog where
  changes := log.changes ++ [change]
  ascending := KeyedLog.Ascending.append_iff.mpr ⟨log.ascending, List.pairwise_singleton _ _, by
    intro earlier member later last
    rw [List.mem_singleton.mp last]
    exact newer earlier member⟩
  valid := by
    intro other member
    rcases List.mem_append.mp member with member | member
    · exact log.valid other member
    · rw [List.mem_singleton.mp member]
      exact valid

/-- The changes after a cursor. -/
def after (log : ScopeLog) (cursor : Cursor) : List Change :=
  log.changes.filter fun change => cursor.get < change.seq.get

/-- The compacted log after a cursor: from the start it carries no tombstones. -/
def compacted (log : ScopeLog) (cursor : Cursor) : List Change :=
  log.changes.filter fun change =>
    isLatest log.changes change && decide (cursor.get < change.seq.get) &&
      (change.op ≠ .delete || decide (0 < cursor.get))

/-- The changes up to a position. -/
def upTo (log : ScopeLog) (position : Nat) : List Change :=
  KeyedLog.upTo (fun change : Change => change.seq.get) position log.changes

/-- The positions a cursor can have: the start, and those of the changes. -/
def Marks (log : ScopeLog) (position : Nat) : Prop :=
  position = 0 ∨ ∃ change ∈ log.changes, change.seq.get = position

variable [Hashing] (log : ScopeLog)

def pull (request : PageRequest) (scope : ScopeId) (cursor : Cursor) : Batch :=
  servePage request scope cursor (log.after cursor) (liveDigest log.changes).toHex

def bootstrap (request : PageRequest) (protocol : ProtocolVersion) (scope : ScopeId)
    (cursor : Cursor) : BootstrapResponse :=
  let batch := servePage request scope cursor (log.compacted cursor) (liveDigest log.changes).toHex
  { protocol := protocol
    scope := batch.scope
    changes := batch.changes
    nextCursor := batch.nextCursor
    hasMore := batch.hasMore
    checksum := batch.checksum
    digest := batch.digest }

end ScopeLog

theorem ScopeLog.upTo_begins (log : ScopeLog) (position : Nat) : log.upTo position <+: log.changes := by
  rw [upTo, ← log.ascending.takeWhile_eq]
  exact List.takeWhile_prefix _

theorem isLatest_iff {changes : List Change} {change : Change} :
    isLatest changes change = true ↔
      ∀ other ∈ changes, other.key = change.key → other.seq.get ≤ change.seq.get := by
  rw [isLatest, List.all_eq_true]
  refine forall₂_congr fun other _ => ?_
  rw [Bool.or_eq_true, decide_eq_true_iff, decide_eq_true_iff, ← imp_iff_not_or]

theorem ScopeLog.latest_unique (log : ScopeLog) {change other : Change}
    (member : change ∈ log.changes) (inside : other ∈ log.changes)
    (latest : isLatest log.changes change = true) (latest' : isLatest log.changes other = true)
    (same : change.key = other.key) : change = other :=
  log.ascending.unique member inside (Nat.le_antisymm
    (isLatest_iff.mp latest' change member same) (isLatest_iff.mp latest other inside same.symm))

/-! ### What a log leaves of a row -/

section Latest

variable {Value : Type} {entry : Change → KeyedLog.Entry RowKey Value} (log : ScopeLog)
  (same : ∀ change, (entry change).seq = change.seq.get ∧ (entry change).key = change.key)
include same

theorem entries_ascending {changes : List Change}
    (ascending : KeyedLog.Ascending (fun change : Change => change.seq.get) changes) :
    KeyedLog.Ascending KeyedLog.Entry.seq (changes.map entry) := by
  refine List.pairwise_map.mpr (ascending.imp fun {first second} below => ?_)
  rwa [(same first).1, (same second).1]

/-- A log's latest entry is that of a latest change. -/
theorem latest_entry {changes : List Change} {last : KeyedLog.Entry RowKey Value}
    (latest : KeyedLog.Latest (changes.map entry) last) :
    ∃ change ∈ changes, entry change = last ∧ isLatest changes change = true := by
  obtain ⟨member, highest⟩ := latest
  obtain ⟨change, known, rfl⟩ := List.mem_map.mp member
  refine ⟨change, known, rfl, isLatest_iff.mpr fun other inside equal => ?_⟩
  have below := highest (entry other) (List.mem_map_of_mem inside)
    (by rw [(same other).2, (same change).2, equal])
  rwa [(same other).1, (same change).1] at below

/-- Whatever is written for each change, an ascending part of a log that has a
row's latest change leaves the row as that change wrote it. -/
theorem ScopeLog.replay_latest {part : List Change} {state : KeyedLog.Holding RowKey Value}
    (within : ∀ change ∈ part, change ∈ log.changes)
    (ascending : KeyedLog.Ascending (fun change : Change => change.seq.get) part)
    {change : Change} (member : change ∈ part) (latest : isLatest log.changes change = true) :
    KeyedLog.replay state (part.map entry) change.key = (entry change).value := by
  rw [← (same change).2]
  refine KeyedLog.replay_latest (entries_ascending same ascending)
    ⟨List.mem_map_of_mem member, fun other inside equal => ?_⟩
  obtain ⟨another, carried, rfl⟩ := List.mem_map.mp inside
  rw [(same another).2, (same change).2] at equal
  rw [(same another).1, (same change).1]
  exact isLatest_iff.mp latest another (within another carried) equal

theorem ScopeLog.live_latest {change : Change} (member : change ∈ log.changes)
    (latest : isLatest log.changes change = true) :
    KeyedLog.live (log.changes.map entry) change.key = (entry change).value :=
  log.replay_latest same (fun _ inside => inside) log.ascending member latest

/-- What a log leaves of a row is nothing, or what the row's latest change wrote. -/
theorem last_write {changes : List Change}
    (ascending : KeyedLog.Ascending (fun change : Change => change.seq.get) changes) (key : RowKey) :
    KeyedLog.live (changes.map entry) key = none ∨ ∃ last ∈ changes, last.key = key ∧
      isLatest changes last = true ∧ KeyedLog.live (changes.map entry) key = (entry last).value := by
  by_cases written : ∃ change ∈ changes, change.key = key
  · obtain ⟨change, member, rfl⟩ := written
    have ordered := entries_ascending same ascending
    obtain ⟨_, highest, equal⟩ := KeyedLog.exists_latest ordered (List.mem_map_of_mem member)
    have left := KeyedLog.live_latest ordered highest
    obtain ⟨last, known, rfl, latest⟩ := latest_entry same highest
    rw [equal, (same change).2] at left
    rw [(same last).2, (same change).2] at equal
    exact .inr ⟨last, known, equal, latest, left⟩
  · refine .inl (KeyedLog.replay_absent fun written' inside equal => ?_)
    obtain ⟨change, member, rfl⟩ := List.mem_map.mp inside
    exact written ⟨change, member, (same change).2.symm.trans equal⟩

/-- A row a log leaves nothing of has no latest change, or one that leaves nothing. -/
theorem ScopeLog.live_none {key : RowKey}
    (removed : ∀ change ∈ log.changes, isLatest log.changes change = true → change.key = key →
      (entry change).value = none) : KeyedLog.live (log.changes.map entry) key = none := by
  rcases last_write same log.ascending key with nothing | ⟨last, known, row, latest, left⟩
  · exact nothing
  · exact left.trans (removed last known latest row)

end Latest

theorem Change.entry_same (change : Change) :
    change.entry.seq = change.seq.get ∧ change.entry.key = change.key := ⟨rfl, rfl⟩

theorem Change.entry_removes {change : Change} (deleted : change.op = .delete) :
    change.entry.value = none := by
  simp [entry, held, deleted]

/-! ### What a page carries -/

section Pages

variable [Hashing] {log : ScopeLog} {scope : ScopeId} {cursor : Cursor} {source : List Change}
  {batch : Batch}

/-- A page holds the first changes of its source up to `next_cursor`, and all of
them if it has no more. -/
structure Batch.Carries (batch : Batch) (cursor : Cursor) (source : List Change) : Prop where
  within : batch.changes.Sublist source
  nextCursor : batch.nextCursor.get =
    KeyedLog.reached (fun change : Change => change.seq.get) cursor.get batch.changes
  complete : ∀ change ∈ source, change.seq.get ≤ batch.nextCursor.get → change ∈ batch.changes
  finished : batch.hasMore = false → batch.changes = source

omit [Hashing] in
/-- A batch cut from the first changes of a source carries the source up to where it ends, and
all of it if neither the cut nor the page left anything. -/
theorem Batch.Cut.carries {candidates left beyond : List Change} {moreBeyond : Bool}
    {digest : HexString} (cut : batch.Cut scope cursor candidates left moreBeyond digest)
    (split : source = candidates ++ beyond) (last : moreBeyond = false → beyond = [])
    (ascending : KeyedLog.Ascending (fun change : Change => change.seq.get) source)
    (above : ∀ change ∈ source, cursor.get < change.seq.get) : batch.Carries cursor source := by
  rw [cut.split, List.append_assoc] at split
  subst split
  refine ⟨List.sublist_append_left _ _, cut.nextCursor, fun change member below => ?_,
    fun finished => ?_⟩
  · have taken := ascending.cut above
    rw [← cut.nextCursor] at taken
    rw [taken]
    exact KeyedLog.mem_upTo.mpr ⟨member, below⟩
  · have none := cut.hasMore
    rw [finished, eq_comm, Bool.or_eq_false_iff, Bool.not_eq_false', List.isEmpty_iff] at none
    rw [none.1, last none.2, List.append_nil, List.append_nil]

theorem servePage_carries (request : PageRequest) (scope : ScopeId) (digest : HexString)
    (ascending : KeyedLog.Ascending (fun change : Change => change.seq.get) source)
    (above : ∀ change ∈ source, cursor.get < change.seq.get) :
    (servePage request scope cursor source digest).Carries cursor source := by
  obtain ⟨left, cut⟩ := fillBatch_cut request.compressedLen scope cursor (source.take request.limit)
    (decide (request.limit < source.length)) request.budgetBytes digest
  refine cut.carries (List.take_append_drop request.limit source).symm (fun whole => ?_)
    ascending above
  exact List.drop_eq_nil_of_le (Nat.le_of_not_lt (of_decide_eq_false whole))

end Pages

/-! ### The digest of a log -/

theorem liveDigest_raw [Hashing] {changes : List Change} {keys : Finset RowKey}
    (covers : ∀ change ∈ changes, change.key ∈ keys) :
    (liveDigest changes).raw =
      KeyedLog.weigh versionHash keys (KeyedLog.live (changes.map Change.entry)) := by
  have total : (liveDigest changes).raw =
      Table.total versionHash (KeyedLog.liveTable (changes.map Change.entry)) := by
    rw [liveDigest, ScopeDigest.fromRows_raw, Multiset.map_map]
    rfl
  have inside : (KeyedLog.liveTable (changes.map Change.entry)).keys ⊆ keys := by
    intro key member
    by_contra outside
    have absent : ∀ entry ∈ changes.map Change.entry, entry.key ≠ key := by
      rintro _ inside rfl
      obtain ⟨change, carried, rfl⟩ := List.mem_map.mp inside
      exact outside (covers change carried)
    have missing : (KeyedLog.liveTable (changes.map Change.entry)).lookup key = none := by
      rw [KeyedLog.lookup_liveTable, KeyedLog.live, KeyedLog.replay_absent absent]
    exact Finmap.lookup_eq_none.mp missing (Finmap.mem_keys.mp member)
  rw [total, KeyedLog.total_eq_weigh versionHash _ keys inside]
  exact KeyedLog.weigh_congr versionHash keys fun key _ => KeyedLog.lookup_liveTable _ key

/-! ### Responses -/

/-- A response, and the cursor it was requested at. -/
inductive Response where
  | pull (requested : Cursor) (batch : Batch)
  | bootstrap (requested : Cursor) (response : BootstrapResponse)

namespace Response

def requested : Response → Cursor
  | .pull requested _ | .bootstrap requested _ => requested

def batch : Response → Batch
  | .pull _ batch => batch
  | .bootstrap _ response => response.toBatch

/-- A bootstrap page is part of a rebuild, a pulled batch is not. -/
def rebuilding : Response → Bool
  | .pull .. => false
  | .bootstrap .. => true

end Response

/-- What a response drew from its scope's log, then and ever after. -/
structure Response.Drawn [Hashing] (log : ScopeLog) (response : Response) : Prop where
  requested : log.Marks response.requested.get
  reached : log.Marks response.batch.nextCursor.get
  drawn : ∀ change ∈ response.batch.changes,
    change ∈ log.changes ∧ response.requested.get < change.seq.get
  ascending : KeyedLog.Ascending (fun change : Change => change.seq.get) response.batch.changes
  nextCursor : response.batch.nextCursor.get =
    KeyedLog.reached (fun change : Change => change.seq.get) response.requested.get
      response.batch.changes
  complete : ∀ change ∈ log.changes, isLatest log.changes change = true →
    response.requested.get < change.seq.get → change.seq.get ≤ response.batch.nextCursor.get →
    change ∈ response.batch.changes ∨ (change.op = .delete ∧ response.requested.get = 0 ∧
      ∀ other ∈ response.batch.changes, other.key ≠ change.key)
  contiguous : response.rebuilding = false → ∀ change ∈ log.changes,
    response.requested.get < change.seq.get → change.seq.get ≤ response.batch.nextCursor.get →
    change ∈ response.batch.changes
  digest : response.rebuilding = false → response.batch.hasMore = false →
    response.batch.digest = (liveDigest (log.upTo response.batch.nextCursor.get)).toHex

section Drawn

variable [Hashing] {log : ScopeLog} {scope : ScopeId} {cursor : Cursor} {request : PageRequest}

omit [Hashing] in
theorem ScopeLog.mem_after : change ∈ log.after cursor ↔
    change ∈ log.changes ∧ cursor.get < change.seq.get := by
  simp [after]

omit [Hashing] in
theorem ScopeLog.mem_compacted : change ∈ log.compacted cursor ↔
    change ∈ log.changes ∧ isLatest log.changes change = true ∧ cursor.get < change.seq.get ∧
      (change.op ≠ .delete ∨ 0 < cursor.get) := by
  simp [compacted, and_assoc]

/-- What a request above a cursor is answered from: the changes after it, which may miss
of the rows' latest ones tombstones alone, and those only at the start. -/
structure ScopeLog.Offers (log : ScopeLog) (cursor : Cursor) (source : List Change) : Prop where
  within : source.Sublist (log.after cursor)
  complete : ∀ change ∈ log.changes, isLatest log.changes change = true →
    cursor.get < change.seq.get → change ∈ source ∨
      change.op = .delete ∧ cursor.get = 0 ∧ ∀ other ∈ source, other.key ≠ change.key

omit [Hashing] in
theorem ScopeLog.after_offers (log : ScopeLog) (cursor : Cursor) :
    log.Offers cursor (log.after cursor) :=
  ⟨List.Sublist.refl _, fun _ member _ above => .inl (mem_after.mpr ⟨member, above⟩)⟩

omit [Hashing] in
theorem ScopeLog.compacted_offers (log : ScopeLog) (cursor : Cursor) :
    log.Offers cursor (log.compacted cursor) where
  within := by
    have narrowed : log.compacted cursor = (log.after cursor).filter fun change =>
        isLatest log.changes change && (change.op ≠ .delete || decide (0 < cursor.get)) := by
      rw [after, compacted, List.filter_filter]
      exact List.filter_congr fun change _ => by ac_rfl
    rw [narrowed]
    exact List.filter_sublist
  complete := by
    intro change member latest above
    by_cases shown : change.op ≠ .delete ∨ 0 < cursor.get
    · exact .inl (mem_compacted.mpr ⟨member, latest, above, shown⟩)
    · obtain ⟨deleted, start⟩ := not_or.mp shown
      refine .inr ⟨not_not.mp deleted, Nat.eq_zero_of_not_pos start, fun other carried same => ?_⟩
      -- the source carries latest changes alone, and this delete is its row's latest
      obtain ⟨known, highest, _, kept⟩ := mem_compacted.mp carried
      rw [log.latest_unique known member highest latest same] at kept
      exact shown kept

omit [Hashing] in
/-- A page of what a log offers ends at a marked position. -/
theorem Batch.Carries.marks {batch : Batch} {source : List Change}
    (carries : batch.Carries cursor source) (offers : log.Offers cursor source)
    (marks : log.Marks cursor.get) : log.Marks batch.nextCursor.get := by
  rw [carries.nextCursor]
  rcases KeyedLog.reached_eq_low_or_mem (fun change : Change => change.seq.get) cursor.get
    batch.changes with ⟨_, same⟩ | ⟨change, member, same⟩
  · rw [same]
    exact marks
  · have known := ScopeLog.mem_after.mp (offers.within.subset (carries.within.subset member))
    rw [same]
    exact .inr ⟨change, known.1, rfl⟩

omit [Hashing] in
/-- What a log offers is a batch in order. -/
theorem Batch.Carries.ordered {batch : Batch} {source : List Change}
    (carries : batch.Carries cursor source) (offers : log.Offers cursor source) :
    batch.Ordered cursor.get := by
  have drawn := offers.within.subset
  have ascending : KeyedLog.Ascending (fun change : Change => change.seq.get) batch.changes :=
    (log.ascending.filter _).sublist (carries.within.trans offers.within)
  refine ⟨fun change member => ?_, fun change member => ?_, ascending, fun change member => ?_⟩
  · exact (ScopeLog.mem_after.mp (drawn (carries.within.subset member))).2
  · exact log.valid change (ScopeLog.mem_after.mp (drawn (carries.within.subset member))).1
  · rw [carries.nextCursor]
    exact ascending.le_reached member

omit [Hashing] in
theorem Batch.Carries.forward {batch : Batch} {source : List Change}
    (carries : batch.Carries cursor source) (offers : log.Offers cursor source) :
    cursor.get ≤ batch.nextCursor.get := by
  rw [carries.nextCursor]
  exact KeyedLog.le_reached_of_above (carries.ordered offers).above

omit [Hashing] in
/-- A pulled batch goes on with the log from where it was requested to where it ends. -/
theorem Batch.Carries.continues {batch : Batch} (carries : batch.Carries cursor (log.after cursor)) :
    log.upTo batch.nextCursor.get = log.upTo cursor.get ++ batch.changes := by
  have ordered := carries.ordered (log.after_offers cursor)
  have forward := carries.forward (log.after_offers cursor)
  refine (log.ascending.filter _).ext (KeyedLog.Ascending.append_iff.mpr ⟨log.ascending.filter _,
    ordered.ascending, fun earlier known later member => ?_⟩) fun change => ?_
  · exact (KeyedLog.mem_upTo.mp known).2.trans_lt (ordered.above later member)
  · rw [List.mem_append]
    change change ∈ KeyedLog.upTo _ _ _ ↔ change ∈ KeyedLog.upTo _ _ _ ∨ _
    rw [KeyedLog.mem_upTo, KeyedLog.mem_upTo]
    constructor
    · rintro ⟨known, below⟩
      by_cases passed : change.seq.get ≤ cursor.get
      · exact .inl ⟨known, passed⟩
      · exact .inr (carries.complete change
          (ScopeLog.mem_after.mpr ⟨known, Nat.lt_of_not_le passed⟩) below)
    · rintro (⟨known, below⟩ | member)
      · exact ⟨known, below.trans forward⟩
      · exact ⟨(ScopeLog.mem_after.mp (carries.within.subset member)).1,
          ordered.covered change member⟩

omit [Hashing] in
/-- A page that ends at the start carries nothing, and was requested there. -/
theorem Batch.Carries.blank {batch : Batch} {source : List Change}
    (carries : batch.Carries cursor source) (start : batch.nextCursor.get = 0) :
    batch.changes = [] ∧ cursor.get = 0 := by
  rw [carries.nextCursor] at start
  rcases KeyedLog.reached_eq_low_or_mem (fun change : Change => change.seq.get) cursor.get
    batch.changes with ⟨empty, same⟩ | ⟨change, _, same⟩
  · exact ⟨empty, same.symm.trans start⟩
  · exact absurd (same.symm.trans start) (Nat.ne_of_gt change.seq.lower)

omit [Hashing] in
/-- A page of what a log offers advances its reader: it misses no row's latest change but
tombstones, and those only while the reader holds nothing. -/
theorem Batch.Carries.advances {Value : Type} {entry : Change → KeyedLog.Entry RowKey Value}
    {batch : Batch} {state : KeyedLog.Holding RowKey Value} {source : List Change} {high : Nat}
    (carries : batch.Carries cursor source) (offers : log.Offers cursor source)
    (same : ∀ change, (entry change).seq = change.seq.get ∧ (entry change).key = change.key)
    (removes : ∀ change, change.op = .delete → (entry change).value = none)
    (nothing : cursor.get = 0 → ∀ key, state key = none)
    (reach : high ≤ batch.nextCursor.get ∨ batch.hasMore = false) :
    KeyedLog.Advances Set.univ state (log.changes.map entry) (batch.changes.map entry)
      cursor.get high where
  drawn := by
    intro written member
    obtain ⟨change, carried, rfl⟩ := List.mem_map.mp member
    obtain ⟨known, above⟩ :=
      ScopeLog.mem_after.mp (offers.within.subset (carries.within.subset carried))
    rw [(same change).1]
    exact ⟨List.mem_map_of_mem known, above⟩
  ascending := entries_ascending same
    ((log.ascending.filter _).sublist (carries.within.trans offers.within))
  complete := by
    intro written latest _ above below
    obtain ⟨change, known, rfl, highest⟩ := latest_entry same latest
    rw [(same change).1] at above below
    rcases offers.complete change known highest above with source | ⟨deleted, start, absent⟩
    · refine .inl (List.mem_map_of_mem ?_)
      rcases reach with within | finished
      · exact carries.complete change source (below.trans within)
      · rw [carries.finished finished]
        exact source
    · refine .inr ⟨removes change deleted, nothing start _, fun other member => ?_⟩
      obtain ⟨another, carried, rfl⟩ := List.mem_map.mp member
      rw [(same another).2, (same change).2]
      exact absent another (carries.within.subset carried)

theorem ScopeLog.pull_drawn (log : ScopeLog) (request : PageRequest) (scope : ScopeId)
    (marks : log.Marks cursor.get) :
    Response.Drawn log (.pull cursor (log.pull request scope cursor)) := by
  have ascending := log.ascending.filter fun change => decide (cursor.get < change.seq.get)
  have carries : (log.pull request scope cursor).Carries cursor (log.after cursor) :=
    servePage_carries request scope _ ascending fun change member => (mem_after.mp member).2
  have digest : (log.pull request scope cursor).digest = (liveDigest log.changes).toHex :=
    (fillBatch_cut ..).elim fun _ cut => cut.digest
  refine ⟨marks, carries.marks (log.after_offers cursor) marks,
    fun change member => mem_after.mp (carries.within.subset member),
    ascending.sublist carries.within, carries.nextCursor, ?_, ?_, fun _ finished => ?_⟩
  · exact fun change member _ above below =>
      .inl (carries.complete change (mem_after.mpr ⟨member, above⟩) below)
  · exact fun _ change member above below =>
      carries.complete change (mem_after.mpr ⟨member, above⟩) below
  · have whole : log.upTo (log.pull request scope cursor).nextCursor.get = log.changes := by
      refine List.filter_eq_self.mpr fun change member => decide_eq_true ?_
      by_cases above : cursor.get < change.seq.get
      · have carried : change ∈ (log.pull request scope cursor).changes := by
          rw [carries.finished finished]
          exact mem_after.mpr ⟨member, above⟩
        rw [carries.nextCursor]
        exact (ascending.sublist carries.within).le_reached carried
      · rw [carries.nextCursor]
        refine (Nat.le_of_not_lt above).trans (KeyedLog.le_reached_of_above fun later inside => ?_)
        exact (mem_after.mp (carries.within.subset inside)).2
    exact digest.trans (by rw [Response.batch, whole])

theorem ScopeLog.bootstrap_carries (log : ScopeLog) (request : PageRequest)
    (protocol : ProtocolVersion) (scope : ScopeId) (cursor : Cursor) :
    Batch.Carries (log.bootstrap request protocol scope cursor).toBatch cursor
      (log.compacted cursor) :=
  servePage_carries request scope _ (log.ascending.filter _)
    fun _ member => (mem_compacted.mp member).2.2.1

theorem ScopeLog.bootstrap_drawn (log : ScopeLog) (request : PageRequest)
    (protocol : ProtocolVersion) (scope : ScopeId) (marks : log.Marks cursor.get) :
    Response.Drawn log (.bootstrap cursor (log.bootstrap request protocol scope cursor)) := by
  have carries := log.bootstrap_carries request protocol scope cursor
  have offers := log.compacted_offers cursor
  have drawn := offers.within.subset
  have ascending : KeyedLog.Ascending (fun change : Change => change.seq.get)
      (log.compacted cursor) := log.ascending.filter _
  refine ⟨marks, carries.marks offers marks,
    fun change member => mem_after.mp (drawn (carries.within.subset member)),
    ascending.sublist carries.within, carries.nextCursor, ?_,
    (fun impossible => nomatch impossible), fun impossible => nomatch impossible⟩
  intro change member latest above below
  rcases offers.complete change member latest above with source | ⟨deleted, start, absent⟩
  · exact .inl (carries.complete change source below)
  · exact .inr ⟨deleted, start, fun other carried => absent other (carries.within.subset carried)⟩

variable {change : Change} {newer : ∀ earlier ∈ log.changes, earlier.seq.get < change.seq.get}
  {valid : change.validate = .ok ()}

omit [Hashing] in
theorem ScopeLog.mem_append {other : Change} : other ∈ (log.append change newer valid).changes ↔
    other ∈ log.changes ∨ other = change := by
  simp [append]

omit [Hashing] in
theorem ScopeLog.Marks.grow {log' : ScopeLog} (marks : log.Marks position)
    (longer : log.changes <+: log'.changes) : log'.Marks position :=
  marks.imp_right fun ⟨earlier, member, same⟩ => ⟨earlier, longer.subset member, same⟩

omit [Hashing] in
/-- What a log gains lies above every marked position. -/
theorem ScopeLog.Marks.later {log' : ScopeLog} {extra : List Change} (marks : log.Marks position)
    (grown : log.changes ++ extra = log'.changes) : ∀ change ∈ extra, position < change.seq.get := by
  intro change member
  rcases marks with rfl | ⟨earlier, inside, rfl⟩
  · exact change.seq.lower
  · have ascending := log'.ascending
    rw [← grown] at ascending
    exact (KeyedLog.Ascending.append_iff.mp ascending).2.2 earlier inside change member

omit [Hashing] in
theorem ScopeLog.Marks.append (marks : log.Marks position) :
    (log.append change newer valid).Marks position :=
  marks.grow (List.prefix_append _ _)

omit [Hashing] in
/-- What is appended lies above every marked position. -/
theorem ScopeLog.Marks.below (marks : log.Marks position)
    (newer : ∀ earlier ∈ log.changes, earlier.seq.get < change.seq.get) :
    position < change.seq.get := by
  rcases marks with rfl | ⟨earlier, member, rfl⟩
  · exact change.seq.lower
  · exact newer earlier member

omit [Hashing] in
/-- A cursor with nothing after it is where the log ends. -/
theorem ScopeLog.Marks.ends (marks : log.Marks cursor.get) (ended : log.after cursor = []) :
    log.upTo cursor.get = log.changes ∧
      cursor.get = KeyedLog.reached (fun change : Change => change.seq.get) 0 log.changes := by
  have passed : ∀ change ∈ log.changes, change.seq.get ≤ cursor.get := fun change member =>
    Nat.le_of_not_lt fun above => by
      have left : change ∈ log.after cursor := mem_after.mpr ⟨member, above⟩
      rw [ended] at left
      cases left
  refine ⟨List.filter_eq_self.mpr fun change member => decide_eq_true (passed change member), ?_⟩
  apply Nat.le_antisymm
  · rcases marks with start | ⟨change, member, same⟩
    · rw [start]
      exact Nat.zero_le _
    · rw [← same]
      exact log.ascending.le_reached member
  · rcases KeyedLog.reached_eq_low_or_mem (fun change : Change => change.seq.get) 0 log.changes with
      ⟨_, same⟩ | ⟨change, member, same⟩
    · rw [same]
      exact Nat.zero_le _
    · rw [same]
      exact passed change member

omit [Hashing] in
/-- A log that grows stays the same up to every marked position. -/
theorem ScopeLog.Marks.upTo_grow {log' : ScopeLog} (marks : log.Marks position)
    (longer : log.changes <+: log'.changes) : log'.upTo position = log.upTo position := by
  obtain ⟨extra, grown⟩ := longer
  have beyond : KeyedLog.upTo (fun change : Change => change.seq.get) position extra = [] :=
    List.filter_eq_nil_iff.mpr fun change member => by
      have above := marks.later grown change member
      simp only [decide_eq_true_eq]
      omega
  rw [upTo, ← grown, KeyedLog.upTo, List.filter_append]
  exact (congrArg _ beyond).trans (List.append_nil _)

omit [Hashing] in
theorem ScopeLog.upTo_append (marks : log.Marks position) :
    (log.append change newer valid).upTo position = log.upTo position :=
  marks.upTo_grow (List.prefix_append _ _)

omit [Hashing] in
theorem isLatest_of_append {changes : List Change} {later other : Change}
    (latest : isLatest (changes ++ [later]) other = true) : isLatest changes other = true := by
  rw [isLatest, List.all_append, Bool.and_eq_true] at latest
  exact latest.1

/-- What a response drew stays drawn while its log grows. -/
theorem Response.Drawn.append {response : Response} (drawn : response.Drawn log) :
    response.Drawn (log.append change newer valid) where
  requested := drawn.requested.append
  reached := drawn.reached.append
  drawn := fun other member =>
    (drawn.drawn other member).imp_left fun inside => ScopeLog.mem_append.mpr (.inl inside)
  ascending := drawn.ascending
  nextCursor := drawn.nextCursor
  complete := by
    intro other member latest above below
    rcases ScopeLog.mem_append.mp member with inside | rfl
    · exact drawn.complete other inside (isLatest_of_append latest) above below
    · exact absurd (drawn.reached.below newer) (Nat.not_lt.mpr below)
  contiguous := by
    intro pulled other member above below
    rcases ScopeLog.mem_append.mp member with inside | rfl
    · exact drawn.contiguous pulled other inside above below
    · exact absurd (drawn.reached.below newer) (Nat.not_lt.mpr below)
  digest := by
    intro pulled finished
    rw [ScopeLog.upTo_append drawn.reached]
    exact drawn.digest pulled finished

theorem Response.Drawn.below {response : Response} (drawn : response.Drawn log)
    (member : change ∈ response.batch.changes) :
    change.seq.get ≤ response.batch.nextCursor.get := by
  rw [drawn.nextCursor]
  exact drawn.ascending.le_reached member

theorem Response.Drawn.forward {response : Response} (drawn : response.Drawn log) :
    response.requested.get ≤ response.batch.nextCursor.get := by
  rw [drawn.nextCursor]
  exact KeyedLog.le_reached_of_above fun change inside => (drawn.drawn change inside).2

/-- An empty page leaves the cursor where it was requested. -/
theorem Response.Drawn.stays {response : Response} (drawn : response.Drawn log)
    (empty : response.batch.changes = []) : response.batch.nextCursor = response.requested := by
  have reached := drawn.nextCursor
  rw [empty, KeyedLog.reached_nil] at reached
  exact BoundedNum.ext reached

end Drawn

namespace Sample

def onePage : PageRequest := ⟨500, 1024, List.length⟩

end Sample

end CredSync
