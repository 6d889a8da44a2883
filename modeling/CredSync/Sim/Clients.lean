import CredSync.Sim.Rows
import Mathlib.Data.List.TakeWhile

/-! Clients that walk the simulated server, by pull or by bootstrap, while it goes on
writing and committing: what they have folded when a page says there is no more. -/

namespace CredSync.Sim

open Transition

namespace Server

variable {server after : Server} {scope : ScopeId}

/-! ### What can be read -/

theorem headFrom_eq (head : Nat) (entries : List LogEntry) : headFrom head entries =
    KeyedLog.reached (fun entry : LogEntry => entry.seq.get) head
      (entries.takeWhile (·.visible)) := by
  induction entries generalizing head with
  | nil => rfl
  | cons entry rest ih =>
    rw [headFrom]
    cases seen : entry.visible with
    | false => simp [seen]
    | true =>
      rw [List.takeWhile_cons_of_pos seen, ← List.singleton_append, KeyedLog.reached_append]
      exact ih entry.seq.get

theorem walk_eq (entries : List LogEntry) :
    walk true entries = (entries.takeWhile (·.visible)).map (·.change) := by
  induction entries with
  | nil => rfl
  | cons entry rest ih =>
    cases seen : entry.visible with
    | false => simp [walk, seen]
    | true => simp [walk, seen, ih]

/-- What can be read of a scope, as a log. -/
def Coherent.log (coherent : server.Coherent) (scope : ScopeId) : ScopeLog where
  changes := server.readable scope
  ascending := (coherent.ascending_changes scope).sublist (server.readable_begins scope).sublist
  valid := by
    intro change member
    obtain ⟨entry, inside, rfl⟩ := List.mem_map.mp member
    exact (coherent.honest entry
      (mem_log_of_entries ((List.takeWhile_sublist _).subset inside))).2

theorem Coherent.reached_entries (coherent : server.Coherent) {entries : List LogEntry}
    (within : ∀ entry ∈ entries, entry ∈ server.log) (low : Nat) :
    KeyedLog.reached (fun entry : LogEntry => entry.seq.get) low entries =
      KeyedLog.reached (fun change : Change => change.seq.get) low (entries.map (·.change)) := by
  cases entries using List.reverseRecOn with
  | nil => rfl
  | append_singleton earlier last =>
    simp [KeyedLog.reached, (coherent.honest last (within last (by simp))).1]

theorem Coherent.visibleHead_eq (coherent : server.Coherent) (scope : ScopeId) :
    server.visibleHead scope =
      KeyedLog.reached (fun change : Change => change.seq.get) 0 (server.readable scope) := by
  rw [visibleHead, headFrom_eq, coherent.reached_entries]
  · rfl
  · exact fun entry member => mem_log_of_entries ((List.takeWhile_sublist _).subset member)

/-- Up to the visible head the log is what can be read. -/
theorem Coherent.upTo_head (coherent : server.Coherent) (scope : ScopeId) :
    server.upTo scope (server.visibleHead scope) = server.readable scope := by
  obtain ⟨rest, split⟩ := server.readable_begins scope
  have ascending := coherent.ascending_changes scope
  rw [← split] at ascending
  rw [coherent.visibleHead_eq, upTo, ← split]
  exact (ascending.cut fun change _ => change.seq.lower).symm

/-! ### Bootstrap candidates -/

/-- The latest entry of every row, of a list of changes. -/
def Represents (latest : Latest) (changes : List Change) : Prop :=
  ∀ key, latest.lookup key =
    (changes.filter fun change => change.key = key).getLast?.map fun change =>
      (change.seq.get, change)

theorem Represents.keep {latest : Latest} {changes : List Change} {entry : LogEntry}
    (represents : Represents latest changes) (honest : entry.change.seq = entry.seq)
    (newer : ∀ change ∈ changes, change.seq.get < entry.seq.get) :
    Represents (keepLatest latest entry) (changes ++ [entry.change]) := by
  have kept : keepLatest latest entry =
      latest.insert entry.change.key (entry.seq.get, entry.change) := by
    unfold keepLatest
    rw [represents]
    cases last : (changes.filter fun change => change.key = entry.change.key).getLast? with
    | none => rfl
    | some change =>
      have below := newer change (List.mem_filter.mp (List.mem_of_getLast? last)).1
      simp [below]
  intro key
  rw [kept, List.filter_append]
  by_cases here : entry.change.key = key
  · subst key
    simp [honest]
  · rw [AList.lookup_insert_ne (Ne.symm here), represents]
    simp [here]

theorem latestVisible_represents {entries : List LogEntry} {latest : Latest} {changes : List Change}
    (represents : Represents latest changes)
    (honest : ∀ entry ∈ entries, entry.change.seq = entry.seq)
    (ascending : KeyedLog.Ascending (fun change : Change => change.seq.get)
      (changes ++ entries.map (·.change))) :
    Represents (latestVisible true entries latest)
      (changes ++ (entries.takeWhile (·.visible)).map (·.change)) := by
  induction entries generalizing latest changes with
  | nil => simpa [latestVisible] using represents
  | cons entry rest ih =>
    rw [latestVisible]
    cases seen : entry.visible with
    | false => simpa [seen] using represents
    | true =>
      have own := honest entry List.mem_cons_self
      have newer : ∀ change ∈ changes, change.seq.get < entry.seq.get := by
        intro change member
        rw [← own]
        exact (KeyedLog.Ascending.append_iff.mp ascending).2.2 change member entry.change (by simp)
      have continued := ih (represents.keep own newer)
        (fun other member => honest other (List.mem_cons_of_mem _ member)) (by simpa using ascending)
      simpa [seen] using continued

theorem Coherent.represents (coherent : server.Coherent) (scope : ScopeId) :
    Represents (latestVisible true (server.entries scope) ∅) (server.readable scope) := by
  have nothing : Represents ∅ [] := fun _ => rfl
  refine latestVisible_represents nothing (fun entry member => ?_) ?_
  · exact (coherent.honest entry (mem_log_of_entries member)).1
  · exact coherent.ascending_changes scope

/-- A bootstrap carries the compacted log of what can be read. -/
theorem Coherent.candidates_eq (coherent : server.Coherent) (scope : ScopeId) (after : Cursor) :
    bootstrapCandidates (latestVisible true (server.entries scope) ∅) after.get =
      (coherent.log scope).compacted after := by
  have represents := coherent.represents scope
  generalize latestVisible true (server.entries scope) ∅ = latest at represents
  have ascending : KeyedLog.Ascending (fun change : Change => change.seq.get)
      (server.readable scope) := (coherent.log scope).ascending
  have held (row : Sigma fun _ : RowKey => Nat × Change) (member : row ∈ latest.entries) :
      row.2.1 = row.2.2.seq.get ∧ row.2.2.key = row.1 ∧ row.2.2 ∈ server.readable scope ∧
        isLatest (server.readable scope) row.2.2 = true := by
    have found := represents row.1
    rw [AList.mem_lookup_iff.mpr member] at found
    obtain ⟨change, last, same⟩ := Option.map_eq_some_iff.mp found.symm
    obtain ⟨inside, key, highest⟩ := (last_iff ascending).mp last
    rw [← same]
    exact ⟨rfl, key, inside, highest⟩
  unfold bootstrapCandidates
  generalize chosen : ((latest.entries.map fun row => row.2).filter fun held =>
    decide (after.get < held.1) && (decide (held.2.op ≠ .delete) || decide (0 < after.get))).map
      (·.2) = candidates
  have members (change : Change) :
      change ∈ candidates ↔ change ∈ (coherent.log scope).compacted after := by
    rw [← chosen, ScopeLog.mem_compacted]
    simp only [List.mem_map, List.mem_filter, Bool.and_eq_true, Bool.or_eq_true, decide_eq_true_eq]
    constructor
    · rintro ⟨pair, ⟨⟨row, member, rfl⟩, above, shown⟩, rfl⟩
      obtain ⟨seq, _, inside, highest⟩ := held row member
      exact ⟨inside, highest, seq ▸ above, shown⟩
    · rintro ⟨inside, highest, above, shown⟩
      have found := represents change.key
      rw [(last_iff ascending).mpr ⟨inside, rfl, highest⟩] at found
      exact ⟨_, ⟨⟨⟨change.key, _⟩, AList.mem_lookup_iff.mp found, rfl⟩, above, shown⟩, rfl⟩
  have distinct : candidates.Pairwise fun first second => first.seq.get ≠ second.seq.get := by
    rw [← chosen]
    refine List.pairwise_map.mpr (List.Pairwise.filter _ (List.pairwise_map.mpr ?_))
    refine (List.nodupKeys_iff_pairwise.mp latest.nodupKeys).imp_of_mem ?_
    intro first second member later apart same
    obtain ⟨_, key, inside, _⟩ := held first member
    obtain ⟨_, key', inside', _⟩ := held second later
    rw [ascending.unique inside inside' same, key'] at key
    exact apart key.symm
  have sorted := List.pairwise_insertionSort
    (fun first second : Change => first.seq.get ≤ second.seq.get) candidates
  have distinct' := (List.perm_insertionSort
    (fun first second : Change => first.seq.get ≤ second.seq.get) candidates).symm.pairwise
      distinct fun apart => Ne.symm apart
  have ordered : KeyedLog.Ascending (fun change : Change => change.seq.get)
      (candidates.insertionSort fun first second => first.seq.get ≤ second.seq.get) :=
    (sorted.and distinct').imp fun both => lt_of_le_of_ne both.1 both.2
  exact ordered.ext (ascending.filter _)
    fun change => (List.mem_insertionSort _).trans (members change)

/-! ### Pages -/

section Pages

variable [Hashing]

/-- A pull is answered from what can be read behind its client. -/
theorem Coherent.pull_scan (coherent : server.Coherent) {received later : List Change}
    {cursor : Cursor} (split : server.readable scope = received ++ later)
    (reached : cursor.get =
      KeyedLog.reached (fun change : Change => change.seq.get) 0 received)
    (rowLimit budgetBytes : Nat) :
    ∃ moreBeyond, server.pullScope ⟨scope, cursor⟩ rowLimit budgetBytes =
        fillBatch compressedLen scope cursor (later.take rowLimit) moreBeyond budgetBytes
          (server.digest scope).toHex ∧
      (moreBeyond = false → later.length ≤ rowLimit) := by
  obtain ⟨passed, ahead, whole, rfl, rfl⟩ := List.map_eq_append_iff.mp split
  have visible : passed ++ ahead <+: server.entries scope := whole ▸ List.takeWhile_prefix _
  obtain ⟨rest, entries⟩ := (List.prefix_append passed ahead).trans visible
  -- the scan stops right behind the cursor
  have before : ∀ entry ∈ passed, entry ∈ server.log := fun entry member =>
    mem_log_of_entries (by rw [← entries]; exact List.mem_append_left _ member)
  have scanned : (server.entries scope).takeWhile
      (fun entry => decide (entry.seq.get ≤ cursor.get)) = passed := by
    have ascending := coherent.ascending_entries scope
    rw [ascending.takeWhile_eq, ← entries, reached, ← coherent.reached_entries before]
    rw [← entries] at ascending
    exact (ascending.cut fun entry _ => entry.seq.lower).symm
  have remaining : (server.entries scope).drop
      (partitionPoint (fun entry => decide (entry.seq.get ≤ cursor.get)) (server.entries scope)) =
        rest := by
    rw [partitionPoint, scanned, ← entries]
    exact List.drop_left
  have walked : walk server.commitOrderGuard rest = ahead.map (·.change) := by
    have seen : ∀ entry ∈ passed, entry.visible = true := fun entry member =>
      List.mem_takeWhile_imp (whole ▸ List.mem_append_left _ member)
    have split := whole
    rw [← entries, List.takeWhile_append_of_pos seen] at split
    rw [coherent.guarded, walk_eq, List.append_cancel_left split]
  have available : (server.entries scope).length -
      partitionPoint (fun entry => decide (entry.seq.get ≤ cursor.get)) (server.entries scope) =
        rest.length := by
    rw [← List.length_drop, remaining]
  have page : server.pullScope ⟨scope, cursor⟩ rowLimit budgetBytes = fillBatch compressedLen scope
      cursor ((ahead.map (·.change)).take rowLimit)
      (decide (((ahead.map (·.change)).take rowLimit).length < rest.length)) budgetBytes
      (server.digest scope).toHex := by
    simp only [pullScope, remaining, walked, available]
  refine ⟨_, page, fun finished => ?_⟩
  have none := of_decide_eq_false finished
  have behind : ahead.length ≤ rest.length := by
    have total := visible.length_le
    rw [← entries] at total
    simpa using total
  rw [List.length_take, List.length_map] at none
  rw [List.length_map]
  omega

/-- A pulled page goes on where its client is, and reaches the end of what can be read once
it has no more. -/
theorem Coherent.pull_page (coherent : server.Coherent) {received later : List Change}
    {cursor : Cursor} (split : server.readable scope = received ++ later)
    (reached : cursor.get =
      KeyedLog.reached (fun change : Change => change.seq.get) 0 received)
    (rowLimit budgetBytes : Nat) :
    ∃ left, later = (server.pullScope ⟨scope, cursor⟩ rowLimit budgetBytes).changes ++ left ∧
      (server.pullScope ⟨scope, cursor⟩ rowLimit budgetBytes).nextCursor.get =
        KeyedLog.reached (fun change : Change => change.seq.get) cursor.get
          (server.pullScope ⟨scope, cursor⟩ rowLimit budgetBytes).changes ∧
      ((server.pullScope ⟨scope, cursor⟩ rowLimit budgetBytes).hasMore = false → left = []) := by
  obtain ⟨moreBeyond, page, last⟩ := coherent.pull_scan split reached rowLimit budgetBytes
  obtain ⟨left, cut⟩ := fillBatch_cut compressedLen scope cursor (later.take rowLimit) moreBeyond
    budgetBytes (server.digest scope).toHex
  rw [page]
  refine ⟨left ++ later.drop rowLimit, ?_, cut.nextCursor, fun finished => ?_⟩
  · rw [← List.append_assoc, ← cut.split, List.take_append_drop]
  · have none := cut.hasMore
    rw [finished, eq_comm, Bool.or_eq_false_iff, Bool.not_eq_false', List.isEmpty_iff] at none
    rw [none.1, List.nil_append, List.drop_eq_nil_iff]
    exact last none.2

/-- A client that is behind is given something. -/
theorem Coherent.pull_progress (coherent : server.Coherent) {received later : List Change}
    {cursor : Cursor} (split : server.readable scope = received ++ later)
    (reached : cursor.get =
      KeyedLog.reached (fun change : Change => change.seq.get) 0 received)
    {rowLimit : Nat} (some : 0 < rowLimit) (budgetBytes : Nat) (behind : later ≠ []) :
    (server.pullScope ⟨scope, cursor⟩ rowLimit budgetBytes).changes ≠ [] := by
  obtain ⟨moreBeyond, page, -⟩ := coherent.pull_scan split reached rowLimit budgetBytes
  obtain ⟨left, cut⟩ := fillBatch_cut compressedLen scope cursor (later.take rowLimit) moreBeyond
    budgetBytes (server.digest scope).toHex
  rw [page]
  refine cut.progress fun nothing => ?_
  rcases List.take_eq_nil_iff.mp nothing with zero | empty
  · exact some.ne' zero
  · exact behind empty

theorem pullScope_digest (server : Server) (request : ScopeCursor) (rowLimit budgetBytes : Nat) :
    (server.pullScope request rowLimit budgetBytes).digest =
      (server.digest request.scope).toHex :=
  (fillBatch_cut ..).elim fun _ cut => cut.digest

theorem bootstrap_digest (server : Server) (request : BootstrapRequest) (budgetBytes : Nat) :
    (server.bootstrap request budgetBytes).toBatch.digest = (server.digest request.scope).toHex :=
  (fillBatch_cut ..).elim fun _ cut => cut.digest

/-- A bootstrap page is cut from the compacted log of what can be read. -/
theorem Coherent.bootstrap_page (coherent : server.Coherent) (request : BootstrapRequest)
    (budgetBytes : Nat) : (server.bootstrap request budgetBytes).toBatch.Carries request.after
      ((coherent.log request.scope).compacted request.after) := by
  have candidates := coherent.candidates_eq request.scope request.after
  have page : (server.bootstrap request budgetBytes).toBatch = servePage
      ⟨((coherent.log request.scope).compacted request.after).length, budgetBytes, compressedLen⟩
      request.scope request.after ((coherent.log request.scope).compacted request.after)
      (server.digest request.scope).toHex := by
    simp only [bootstrap, coherent.guarded, candidates, servePage, List.take_length, lt_irrefl,
      decide_false]
    rfl
  rw [page]
  exact servePage_carries _ _ _ ((coherent.log request.scope).ascending.filter _)
    fun change member => (ScopeLog.mem_compacted.mp member).2.2.1

end Pages

end Server

/-! ### Walks -/

/-- A client of one scope beside the server it walks. -/
structure Walk where
  server : Server := {}
  cursor : Cursor := Cursor.start
  received : List Change := []

inductive WalkMove where
  | serve (move : Move)
  | page (rowLimit budgetBytes : Nat)

namespace Walk

def receive (walk : Walk) (page : Batch) : Walk :=
  { walk with cursor := page.nextCursor, received := walk.received ++ page.changes }

section Steps

variable [Hashing]

def pull (scope : ScopeId) (walk : Walk) (rowLimit budgetBytes : Nat) : Batch :=
  walk.server.pullScope ⟨scope, walk.cursor⟩ rowLimit budgetBytes

/-- A bootstrap page has no row limit. -/
def bootstrap (protocol : ProtocolVersion) (scope : ScopeId) (walk : Walk)
    (_rowLimit budgetBytes : Nat) : Batch :=
  (walk.server.bootstrap ⟨protocol, scope, walk.cursor⟩ budgetBytes).toBatch

/-- The server moves, or the client asks for its next page. -/
inductive Step (answer : Walk → Nat → Nat → Batch) : Walk → WalkMove → Walk → Prop where
  | serve {server : Server} (taken : walk.server.take move = some server) :
      Step answer walk (.serve move) { walk with server := server }
  | page : Step answer walk (.page rowLimit budgetBytes)
      (walk.receive (answer walk rowLimit budgetBytes))

/-- A pulling client has received what can be read up to its cursor. -/
structure Pulling (scope : ScopeId) (walk : Walk) : Prop where
  coherent : walk.server.Coherent
  split : walk.received <+: walk.server.readable scope
  reached : walk.cursor.get =
    KeyedLog.reached (fun change : Change => change.seq.get) 0 walk.received

/-- The rows a client has folded. -/
def rows (walk : Walk) : KeyedLog.Holding RowKey RowVersion :=
  KeyedLog.live (walk.received.map Change.entry)

/-- A bootstrapping client has no hole behind its cursor, and nothing at the start. -/
structure Booting (scope : ScopeId) (walk : Walk) : Prop where
  coherent : walk.server.Coherent
  settled : KeyedLog.Settled Set.univ walk.rows
    ((walk.server.readable scope).map Change.entry) walk.cursor.get
  marks : walk.cursor.get = 0 ∨
    ∃ change ∈ walk.server.readable scope, change.seq.get = walk.cursor.get
  nothing : walk.cursor.get = 0 → walk.received = []

variable {walk after : Walk} {scope : ScopeId} {protocol : ProtocolVersion} {move : WalkMove}

theorem Pulling.step (pulling : walk.Pulling scope) (step : Step (pull scope) walk move after) :
    after.Pulling scope := by
  cases step with
  | serve taken =>
    have writes := Server.take_writes taken
    exact ⟨pulling.coherent.next writes,
      pulling.split.trans (pulling.coherent.readable_grows writes scope), pulling.reached⟩
  | @page rowLimit budgetBytes =>
    obtain ⟨later, split⟩ := pulling.split
    obtain ⟨left, rfl, nextCursor, _⟩ :=
      pulling.coherent.pull_page split.symm pulling.reached rowLimit budgetBytes
    refine ⟨pulling.coherent, ⟨left, ?_⟩, ?_⟩
    · rw [← List.append_assoc] at split
      exact split
    · rw [receive, KeyedLog.reached_append, ← pulling.reached]
      exact nextCursor

omit [Hashing] in
theorem rows_receive (walk : Walk) (page : Batch) :
    (walk.receive page).rows = KeyedLog.replay walk.rows (page.changes.map Change.entry) := by
  rw [rows, receive, List.map_append, KeyedLog.live, KeyedLog.replay_append]
  rfl

/-- What a bootstrap page brings its client. -/
theorem Booting.settles (booting : walk.Booting scope) (rowLimit budgetBytes : Nat) {high : Nat}
    (reach : high ≤ (walk.bootstrap protocol scope rowLimit budgetBytes).nextCursor.get ∨
      (walk.bootstrap protocol scope rowLimit budgetBytes).hasMore = false) :
    KeyedLog.Settled Set.univ
      (walk.receive (walk.bootstrap protocol scope rowLimit budgetBytes)).rows
      ((walk.server.readable scope).map Change.entry) high := by
  have carries := booting.coherent.bootstrap_page ⟨protocol, scope, walk.cursor⟩ budgetBytes
  have nothing : walk.cursor.get = 0 → ∀ key, walk.rows key = none := fun start key => by
    rw [rows, booting.nothing start]
    rfl
  rw [rows_receive]
  exact booting.settled.advance
    (entries_ascending Change.entry_same (booting.coherent.log scope).ascending)
    (carries.advances ((booting.coherent.log scope).compacted_offers walk.cursor)
      Change.entry_same (fun _ => Change.entry_removes) nothing reach)

theorem Booting.step (booting : walk.Booting scope)
    (step : Step (bootstrap protocol scope) walk move after) : after.Booting scope := by
  cases step with
  | serve taken =>
    have writes := Server.take_writes taken
    obtain ⟨extra, grown⟩ := booting.coherent.readable_grows writes scope
    have marks : (booting.coherent.log scope).Marks walk.cursor.get := booting.marks
    have newer := @ScopeLog.Marks.later _ _ ((booting.coherent.next writes).log scope) extra marks grown
    refine ⟨booting.coherent.next writes, ?_, ?_, booting.nothing⟩
    · rw [← grown, List.map_append]
      apply booting.settled.grow
      intro entry member
      obtain ⟨change, inside, rfl⟩ := List.mem_map.mp member
      exact newer change inside
    · exact @ScopeLog.Marks.grow _ _ ((booting.coherent.next writes).log scope) marks ⟨extra, grown⟩
  | @page rowLimit budgetBytes =>
    have carries := booting.coherent.bootstrap_page ⟨protocol, scope, walk.cursor⟩ budgetBytes
    refine ⟨booting.coherent, booting.settles rowLimit budgetBytes (.inl le_rfl),
      carries.marks ((booting.coherent.log scope).compacted_offers walk.cursor) booting.marks,
      fun start => ?_⟩
    obtain ⟨empty, before⟩ := carries.blank start
    have nothing := booting.nothing before
    change walk.received ++ (walk.bootstrap protocol scope rowLimit budgetBytes).changes = []
    rw [nothing]
    exact empty

end Steps

end Walk

/-! ### What the server expects -/

section Expects

variable [Hashing]

/-- What a server expects of a client that has been told there is no more: its rows and its
digest agree with what the client folded as long as no row was deleted last. -/
structure Server.Expects (server : Server) (scope : ScopeId) (changes : List Change)
    (digest : HexString) : Prop where
  rows : server.rowsAt scope (server.visibleHead scope) = folded changes ↔
    server.NoneGone scope (server.visibleHead scope)
  digest : server.NoneGone scope (server.visibleHead scope) →
    digest = (ScopeDigest.fromRows (folded changes)).toHex

variable {server : Server} {walk : Walk} {scope : ScopeId} {protocol : ProtocolVersion}
  {moves : List WalkMove} {rowLimit budgetBytes : Nat}

theorem Server.Coherent.expects (coherent : server.Coherent) {changes : List Change}
    (same : folded changes = folded (server.readable scope)) {digest : HexString}
    (sent : digest = (server.digest scope).toHex) : server.Expects scope changes digest := by
  have rows := coherent.rowsAt_iff scope (server.visibleHead scope)
  rw [coherent.upTo_head, ← same] at rows
  refine ⟨rows, fun none => ?_⟩
  rw [sent, Server.digest, rows.mpr none]

theorem Walk.Pulling.expects (pulling : walk.Pulling scope)
    (finished : (walk.pull scope rowLimit budgetBytes).hasMore = false) :
    walk.server.Expects scope (walk.received ++ (walk.pull scope rowLimit budgetBytes).changes)
      (walk.pull scope rowLimit budgetBytes).digest := by
  obtain ⟨later, split⟩ := pulling.split
  obtain ⟨left, rfl, _, last⟩ :=
    pulling.coherent.pull_page split.symm pulling.reached rowLimit budgetBytes
  apply pulling.coherent.expects
  · rw [last finished, List.append_nil] at split
    rw [← split]
    rfl
  · exact Server.pullScope_digest ..

theorem Walk.Booting.expects (booting : walk.Booting scope)
    (finished : (walk.bootstrap protocol scope rowLimit budgetBytes).hasMore = false) :
    walk.server.Expects scope
      (walk.received ++ (walk.bootstrap protocol scope rowLimit budgetBytes).changes)
      (walk.bootstrap protocol scope rowLimit budgetBytes).digest := by
  apply booting.coherent.expects
  · have settled : KeyedLog.Settled Set.univ _ _ (walk.server.visibleHead scope) :=
      booting.settles rowLimit budgetBytes (.inr finished)
    apply congrArg rowsOf
    apply Finmap.ext_lookup
    intro key
    rw [KeyedLog.lookup_liveTable, KeyedLog.lookup_liveTable]
    refine settled.total (fun entry member => ?_) (Set.mem_univ key)
    obtain ⟨change, inside, rfl⟩ := List.mem_map.mp member
    rw [booting.coherent.visibleHead_eq]
    exact (booting.coherent.log scope).ascending.le_reached inside
  · exact Server.bootstrap_digest ..

theorem reachable_coherent {moves : List Move}
    (run : Run (fun before move after => Server.take before move = some after) {} moves server) :
    server.Coherent :=
  run.invariant (fun _ _ _ coherent taken => coherent.next (Server.take_writes taken))
    Server.coherent_new

/-- Whatever the simulated server did, and whenever it did it: the rows it expects at a
cursor are those folded up to there exactly when none of them was deleted last, and so are
the rows and the digest it expects of a client that has just pulled, or bootstrapped, its
last page. -/
theorem clients_expected (scope : ScopeId) (protocol : ProtocolVersion) :
    (∀ (moves : List Move) (server : Server) (cursor : Nat),
      Run (fun before move after => Server.take before move = some after) {} moves server →
      cursor ≤ server.visibleHead scope →
        (server.rowsAt scope cursor = folded (server.upTo scope cursor) ↔
          server.NoneGone scope cursor)) ∧
    (∀ (moves : List WalkMove) (walk : Walk) (rowLimit budgetBytes : Nat),
      Run (Walk.Step (Walk.pull scope)) {} moves walk →
      (walk.pull scope rowLimit budgetBytes).hasMore = false →
        walk.server.Expects scope
          (walk.received ++ (walk.pull scope rowLimit budgetBytes).changes)
          (walk.pull scope rowLimit budgetBytes).digest) ∧
    (∀ (moves : List WalkMove) (walk : Walk) (rowLimit budgetBytes : Nat),
      Run (Walk.Step (Walk.bootstrap protocol scope)) {} moves walk →
      (walk.bootstrap protocol scope rowLimit budgetBytes).hasMore = false →
        walk.server.Expects scope
          (walk.received ++ (walk.bootstrap protocol scope rowLimit budgetBytes).changes)
          (walk.bootstrap protocol scope rowLimit budgetBytes).digest) := by
  refine ⟨fun moves server cursor run _ => ?_, fun moves walk rowLimit budgetBytes run finished => ?_,
    fun moves walk rowLimit budgetBytes run finished => ?_⟩
  · exact (reachable_coherent run).rowsAt_iff scope cursor
  · have started : Walk.Pulling scope {} := ⟨Server.coherent_new, List.nil_prefix, rfl⟩
    have pulling := run.invariant (fun _ _ _ pulling step => pulling.step step) started
    exact pulling.expects finished
  · have settled : KeyedLog.Settled Set.univ (Walk.rows {})
        ((Server.readable {} scope).map Change.entry) 0 := fun _ _ _ => rfl
    have started : Walk.Booting scope {} := ⟨Server.coherent_new, settled, .inl rfl, fun _ => rfl⟩
    have booting := run.invariant (fun _ _ _ booting step => booting.step step) started
    exact booting.expects finished

end Expects

end CredSync.Sim

namespace CredSync.Sample

open Sim Transition

attribute [local instance] noteHashes

/-- A server that wrote one row, and one that then deleted it. -/
def oneNote : Server := (({} : Server).externalChangeTo scope note first.bytes).getD {}
def goneNote : Server := (oneNote.externalDelete scope note first.bytes).getD {}

def firstProtocol : ProtocolVersion := 1

/-- The server with one row, and a client that has not asked for anything. -/
def oneWalk : Walk := { server := oneNote }

/-- The first page of either kind brings the row that is expected. -/
theorem oneNote_expected :
    oneNote.rowsAt scope 1 = folded (oneNote.upTo scope 1) ∧
    (oneWalk.pull scope 500 1024).digest = (ScopeDigest.fromRows
      (folded (oneWalk.received ++ (oneWalk.pull scope 500 1024).changes))).toHex ∧
    (oneWalk.bootstrap firstProtocol scope 500 1024).digest = (ScopeDigest.fromRows
      (folded (oneWalk.received ++
        (oneWalk.bootstrap firstProtocol scope 500 1024).changes))).toHex := by
  obtain ⟨rows, pulled, booted⟩ := clients_expected scope firstProtocol
  have wrote : ({} : Server).take (.externalChangeTo scope note first.bytes) = some oneNote := by rfl
  have none : oneNote.NoneGone scope 1 := by
    unfold Server.NoneGone
    decide +kernel
  have head : oneNote.visibleHead scope = 1 := by decide +kernel
  have judged : oneWalk.server.NoneGone scope (oneWalk.server.visibleHead scope) := by
    change oneNote.NoneGone scope (oneNote.visibleHead scope)
    rwa [head]
  have lastPull : (oneWalk.pull scope 500 1024).hasMore = false := by decide +kernel
  have lastPage : (oneWalk.bootstrap firstProtocol scope 500 1024).hasMore = false := by
    decide +kernel
  have walked (answer : Walk → Nat → Nat → Batch) : Run (Walk.Step answer) {}
      [.serve (.externalChangeTo scope note first.bytes)] oneWalk := .single (.serve wrote)
  exact ⟨(rows _ oneNote 1 (.single wrote) head.ge).mpr none,
    (pulled _ oneWalk 500 1024 (walked _) lastPull).digest judged,
    (booted _ oneWalk 500 1024 (walked _) lastPage).digest judged⟩

/-- Once the row is deleted the server still expects it, of a client that was told of both
changes. -/
theorem goneNote_misjudged :
    Run (fun before move after => Server.take before move = some after) {}
      [.externalChangeTo scope note first.bytes, .externalDelete scope note first.bytes] goneNote ∧
    goneNote.rowsAt scope 2 ≠ folded (goneNote.upTo scope 2) ∧
    (Walk.pull scope { server := goneNote } 500 1024).hasMore = false ∧
    (Walk.pull scope { server := goneNote } 500 1024).digest ≠
      (ScopeDigest.fromRows
        (folded (Walk.pull scope { server := goneNote } 500 1024).changes)).toHex := by
  refine ⟨?_, ?_, ?_, ?_⟩
  · exact .next rfl (.single rfl)
  · decide +kernel
  · decide +kernel
  · decide +kernel

end CredSync.Sample
