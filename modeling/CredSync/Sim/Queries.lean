import CredSync.Sim.Clients
import CredSync.Sync.Shown

/-! The simulated server against the queries it stands for. Where a database holds what the
simulated server has committed, and a watermark has no hole beneath it, the two reads of the
change log serve the pages that the simulated server serves. -/

namespace CredSync.Sim

open Transition

namespace Server

variable {server : Server} {scope : ScopeId} {table : List SyncChange} {watermark : Int}

/-- A change table that holds what was committed of a scope, beside the rows of others. -/
structure Tabled (server : Server) (scope : ScopeId) (table : List SyncChange) : Prop where
  sequenced : SequencedTable table
  rows : ∀ row, (⟨scope.bytes, row⟩ : SyncChange) ∈ table ↔
    ∃ entry ∈ server.entries scope, entry.visible = true ∧ entry.change.toRow = row

/-- A watermark with no hole beneath it, and not behind what can be read. -/
structure Marks (server : Server) (scope : ScopeId) (watermark : Int) : Prop where
  whole : ∀ entry ∈ server.entries scope, entry.visible = false → watermark < entry.seq.get
  fresh : (server.visibleHead scope : Int) ≤ watermark

/-- Whether a scope has changes behind one that is not committed. -/
def withholds (server : Server) (scope : ScopeId) : Bool :=
  decide ((server.readable scope).length < (server.entries scope).length)

/-- The table of one scope alone. -/
def committedRows (server : Server) (scope : ScopeId) : List SyncChange :=
  ((server.entries scope).filter (·.visible)).map fun entry => ⟨scope.bytes, entry.change.toRow⟩

theorem Coherent.tabled (coherent : server.Coherent) (scope : ScopeId) :
    server.Tabled scope (server.committedRows scope) where
  sequenced := by
    refine ⟨?_, ?_⟩
    · have ascending := (coherent.ascending_entries scope).filter (·.visible)
      rw [committedRows, List.map_map]
      refine List.pairwise_map.mpr (ascending.imp_of_mem fun {first second} here there below => ?_)
      have own := (coherent.honest first (mem_log_of_entries (List.mem_filter.mp here).1)).1
      have other := (coherent.honest second (mem_log_of_entries (List.mem_filter.mp there).1)).1
      simp only [Function.comp_apply, Change.toRow, own, other]
      exact ne_of_lt (Int.ofNat_lt.mpr below)
    · intro row member
      obtain ⟨entry, _, rfl⟩ := List.mem_map.mp member
      exact Int.ofNat_lt.mpr entry.change.seq.lower
  rows row := by
    simp only [committedRows, List.mem_map, List.mem_filter, SyncChange.mk.injEq, true_and]
    constructor
    · rintro ⟨entry, ⟨inside, seen⟩, same⟩
      exact ⟨entry, inside, seen, same⟩
    · rintro ⟨entry, inside, seen, same⟩
      exact ⟨entry, ⟨inside, seen⟩, same⟩

/-! ### What a watermark shows -/

/-- What can be read, and what is behind it: nothing, or first an entry that is hidden. -/
theorem Coherent.entries_split (coherent : server.Coherent) (scope : ScopeId) :
    ∃ read rest, server.entries scope = read ++ rest ∧ server.readable scope = read.map (·.change) ∧
      (∀ entry ∈ read, entry.visible = true) ∧
      (∀ first later, rest = first :: later → first.visible = false) ∧
      ∀ entry ∈ rest, server.visibleHead scope < entry.seq.get := by
  have split := (List.takeWhile_append_dropWhile (p := LogEntry.visible)
    (l := server.entries scope)).symm
  have ascending := coherent.ascending_entries scope
  rw [split] at ascending
  refine ⟨_, _, split, rfl, fun entry member => List.mem_takeWhile_imp member,
    fun first later cut => ?_, fun entry behind => ?_⟩
  · have hidden := List.head_dropWhile_not LogEntry.visible (l := server.entries scope)
      (by simp [cut])
    simpa only [cut, List.head_cons] using hidden
  · rw [visibleHead, headFrom_eq]
    rcases KeyedLog.reached_eq_low_or_mem (fun entry : LogEntry => entry.seq.get) 0
      ((server.entries scope).takeWhile (·.visible)) with ⟨-, start⟩ | ⟨last, inside, reached⟩
    · rw [start]
      exact entry.seq.lower
    · rw [reached]
      exact (KeyedLog.Ascending.append_iff.mp ascending).2.2 last inside entry behind

/-- The visible head is itself a watermark. -/
theorem Coherent.marks_head (coherent : server.Coherent) (scope : ScopeId) :
    server.Marks scope (server.visibleHead scope) where
  whole entry member hidden := by
    obtain ⟨read, rest, split, -, seen, -, above⟩ := coherent.entries_split scope
    rw [split] at member
    rcases List.mem_append.mp member with inside | behind
    · exact absurd (seen entry inside) (by simp [hidden])
    · exact Int.ofNat_lt.mpr (above entry behind)
  fresh := le_refl _

/-- Such a table shows at such a watermark what can be read. -/
theorem Coherent.shown (coherent : server.Coherent) (tabled : server.Tabled scope table)
    (marks : server.Marks scope watermark) : (coherent.log scope).Shown scope table watermark where
  sequenced := tabled.sequenced
  rows := by
    have ascending : ((coherent.log scope).changes.map Change.toRow).Pairwise
        fun first second => first.seq < second.seq :=
      List.pairwise_map.mpr ((coherent.log scope).ascending.imp fun below => Int.ofNat_lt.mpr below)
    refine eq_of_ascending (tabled.sequenced.ascending scope _) ascending fun row => ?_
    obtain ⟨read, rest, split, readable, seen, hidden, -⟩ := coherent.entries_split scope
    have ordered := coherent.ascending_entries scope
    have own (entry : LogEntry) (member : entry ∈ server.entries scope) :
        entry.change.toRow.seq = entry.seq.get := by
      rw [Change.toRow, (coherent.honest entry (mem_log_of_entries member)).1]
    rw [split] at ordered own
    change row ∈ _ ↔ row ∈ (server.readable scope).map Change.toRow
    rw [mem_scopeLog, tabled.rows, readable, List.map_map, List.mem_map, split]
    constructor
    · rintro ⟨⟨entry, member, visible, rfl⟩, below⟩
      rw [own entry member] at below
      rcases List.mem_append.mp member with inside | behind
      · exact ⟨entry, inside, rfl⟩
      · -- the first entry that is hidden is above the watermark, and so is all behind it
        exfalso
        cases rest with
        | nil => cases behind
        | cons first later =>
          have above := marks.whole first (by rw [split]; simp) (hidden first later rfl)
          have least : first.seq.get ≤ entry.seq.get := by
            rcases List.mem_cons.mp behind with rfl | later'
            · exact le_refl _
            · exact ((List.pairwise_cons.mp
                (KeyedLog.Ascending.append_iff.mp ordered).2.1).1 entry later').le
          omega
    · rintro ⟨entry, inside, rfl⟩
      have member : entry ∈ read ++ rest := List.mem_append_left _ inside
      refine ⟨⟨entry, member, seen entry inside, rfl⟩, ?_⟩
      have listed : entry.change ∈ server.readable scope := readable ▸ List.mem_map_of_mem inside
      have reached : entry.change.seq.get ≤
          KeyedLog.reached (fun change : Change => change.seq.get) 0 (server.readable scope) :=
        (coherent.log scope).ascending.le_reached listed
      have fresh := marks.fresh
      rw [coherent.visibleHead_eq] at fresh
      exact (Int.ofNat_le.mpr reached).trans fresh

/-! ### What the reads serve -/

section Pages

variable [Hashing] {limit : Int64}

/-- A pull from a cursor that is not past what can be read is answered from behind it. -/
theorem Coherent.pullScope_eq (coherent : server.Coherent) {cursor : Cursor}
    (within : cursor.get ≤ server.visibleHead scope) (rowLimit budgetBytes : Nat) :
    server.pullScope ⟨scope, cursor⟩ rowLimit budgetBytes =
      fillBatch compressedLen scope cursor (((coherent.log scope).after cursor).take rowLimit)
        (decide (rowLimit < ((coherent.log scope).after cursor).length) || server.withholds scope)
        budgetBytes (server.digest scope).toHex := by
  obtain ⟨read, rest, split, readable, seen, hidden, above⟩ := coherent.entries_split scope
  have ordered := coherent.ascending_entries scope
  have own (entry : LogEntry) (member : entry ∈ server.entries scope) :=
    (coherent.honest entry (mem_log_of_entries member)).1
  -- everything behind what can be read is behind the cursor
  have behind : rest.filter (fun entry => cursor.get < entry.seq.get) = rest :=
    List.filter_eq_self.mpr fun entry member =>
      decide_eq_true (within.trans_lt (above entry member))
  have remaining : (server.entries scope).drop
      (partitionPoint (fun entry => decide (entry.seq.get ≤ cursor.get)) (server.entries scope)) =
        read.filter (fun entry => cursor.get < entry.seq.get) ++ rest := by
    rw [partitionPoint, ordered.drop_takeWhile, split, List.filter_append, behind]
  have after : (read.filter fun entry => cursor.get < entry.seq.get).map (·.change) =
      (coherent.log scope).after cursor := by
    change _ = (server.readable scope).filter _
    rw [readable, List.filter_map]
    congr 1
    refine List.filter_congr fun entry member => ?_
    rw [Function.comp_apply, own entry (by rw [split]; exact List.mem_append_left _ member)]
  have walked : walk server.commitOrderGuard
      (read.filter (fun entry => cursor.get < entry.seq.get) ++ rest) =
        (coherent.log scope).after cursor := by
    have stops : rest.takeWhile (·.visible) = [] := by
      cases rest with
      | nil => rfl
      | cons first later => exact List.takeWhile_cons_of_neg (by simp [hidden first later rfl])
    rw [coherent.guarded, walk_eq, List.takeWhile_append_of_pos fun entry member =>
      seen entry (List.mem_filter.mp member).1, stops, List.append_nil, after]
  have available : (server.entries scope).length -
      partitionPoint (fun entry => decide (entry.seq.get ≤ cursor.get)) (server.entries scope) =
        ((coherent.log scope).after cursor).length + rest.length := by
    rw [← List.length_drop, remaining, List.length_append, ← after, List.length_map]
  have withheld : server.withholds scope = decide (0 < rest.length) := by
    rw [withholds, readable, split]
    simp
  rw [pullScope]
  simp only [remaining, walked, available, withheld]
  congr 1
  rw [Bool.eq_iff_iff, Bool.or_eq_true, decide_eq_true_iff, decide_eq_true_iff, decide_eq_true_iff,
    List.length_take]
  omega

/-- A bootstrap is answered from the compacted log, whatever its length. -/
theorem Coherent.bootstrap_eq (coherent : server.Coherent) (request : BootstrapRequest)
    (budgetBytes : Nat) : (server.bootstrap request budgetBytes).toBatch =
      fillBatch compressedLen request.scope request.after
        ((coherent.log request.scope).compacted request.after) false budgetBytes
        (server.digest request.scope).toHex := by
  have candidates := coherent.candidates_eq request.scope request.after
  simp only [bootstrap, coherent.guarded, candidates]
  rfl

/-- The page a read becomes when more is withheld than the read can tell. -/
def pageOf (server : Server) (scope : ScopeId) (cursor : Cursor) (budgetBytes : Nat) (page : Page)
    (withheld : Bool) : Batch :=
  let batch := fillBatch compressedLen scope cursor page.changes page.moreBeyond budgetBytes
    (server.digest scope).toHex
  { batch with hasMore := batch.hasMore || withheld }

end Pages

end Server

end CredSync.Sim

namespace CredSync.Sample

open Sim Transition

attribute [local instance] noteHashes

/-- The second of three writes is still open. -/
def openMoves : List Move :=
  [.externalChangeTo scope note first.bytes, .holdNextWrite 3,
    .externalChangeTo scope note second.bytes, .externalChangeTo scope note first.bytes]

def openNote : Server :=
  openMoves.foldl (fun server move => (server.take move).getD {}) {}

/-- The one change that is committed with none open before it, and more to come. -/
example : ((openNote.pullScope ⟨scope, Cursor.start⟩ 500 1024).changes.length,
    (openNote.pullScope ⟨scope, Cursor.start⟩ 500 1024).hasMore,
    (openNote.committedRows scope).length) = (1, true, 2) := by
  decide +kernel

end CredSync.Sample
