import CredSync.Sim.Server

/-! What the simulated server expects its clients to hold. The expectation comes from the
history kept per row and from the visible head, a client's rows from the changes it was
given; both follow one log. -/

namespace CredSync.Sim

open Transition

/-- The changes of a scope, in the order of its log. -/
def Server.changes (server : Server) (scope : ScopeId) : List Change :=
  (server.entries scope).map (·.change)

/-- The changes before the first one not committed. -/
def Server.readable (server : Server) (scope : ScopeId) : List Change :=
  ((server.entries scope).takeWhile (·.visible)).map (·.change)

/-- The versions the history keeps of a row. -/
def Server.versions (server : Server) (scope : ScopeId) (key : RowKey) : RowVersions :=
  ((server.rowHistory.lookup scope).bind fun history => history.lookup key).getD []

/-- The log, the index over it and the row history agree. -/
structure Server.Coherent (server : Server) : Prop where
  ascending : KeyedLog.Ascending (fun entry : LogEntry => entry.seq.get) server.log
  below : ∀ entry ∈ server.log, entry.seq.get < server.nextSeq
  honest : ∀ entry ∈ server.log, entry.change.seq = entry.seq ∧ entry.change.validate = .ok ()
  indices : ∀ scope, ((server.byScope.lookup scope).getD []).Pairwise (· < ·) ∧
    ∀ index ∈ (server.byScope.lookup scope).getD [], index < server.log.length
  history : ∀ scope key, server.versions scope key =
    ((server.changes scope).filter fun change => change.key = key).map
      fun change => (change.seq.get, change.rowVersion)
  guarded : server.commitOrderGuard = true

/-! ### What one move does to the log -/

/-- A commit changes nothing of an entry but that it can be seen. -/
structure LogEntry.Settles (before after : LogEntry) : Prop where
  seq : after.seq = before.seq
  change : after.change = before.change
  visible : before.visible = true → after.visible = true

/-- Whether two servers hold the same log, index and history. -/
structure Server.SameLog (server after : Server) : Prop where
  log : after.log = server.log
  byScope : after.byScope = server.byScope
  rowHistory : after.rowHistory = server.rowHistory
  guarded : after.commitOrderGuard = server.commitOrderGuard

theorem Server.SameLog.refl (server : Server) : server.SameLog server := ⟨rfl, rfl, rfl, rfl⟩

/-- All a move can do to the log: nothing, one more entry at the next `seq`, or commits. -/
inductive Server.Writes (server after : Server) : Prop where
  | quiet (same : server.SameLog after) (seqs : server.nextSeq ≤ after.nextSeq)
  | wrote (scope : ScopeId) (entry : LogEntry) (same : (server.addEntry scope entry).SameLog after)
      (taken : entry.seq.get = server.nextSeq) (seqs : after.nextSeq = server.nextSeq + 1)
      (honest : entry.change.seq = entry.seq ∧ entry.change.validate = .ok ())
  | committed (settles : List.Forall₂ LogEntry.Settles server.log after.log)
      (byScope : after.byScope = server.byScope) (rowHistory : after.rowHistory = server.rowHistory)
      (guarded : after.commitOrderGuard = server.commitOrderGuard)
      (seqs : after.nextSeq = server.nextSeq)

namespace Server

variable {server after : Server} {scope : ScopeId}

theorem takeSeq_ok (taken : server.takeSeq = some (seq, after)) :
    seq.get = server.nextSeq ∧ after = { server with nextSeq := server.nextSeq + 1 } := by
  unfold takeSeq at taken
  split at taken
  · rename_i made
    cases taken
    unfold BoundedNum.new at made
    split at made
    · cases made
      exact ⟨rfl, rfl⟩
    · cases made
  · cases taken

theorem writeRow_writes {entity : EntityName} {entityId : EntityId}
    (written : server.writeRow scope entity entityId = some (seq, after)) : server.Writes after := by
  obtain ⟨⟨taken, moved⟩, took, same⟩ := Option.map_eq_some_iff.mp written
  cases same
  obtain ⟨equal, rfl⟩ := takeSeq_ok took
  exact .wrote scope _ ⟨rfl, rfl, rfl, rfl⟩ equal rfl ⟨rfl, rfl⟩

private theorem settles_refl (log : List LogEntry) : List.Forall₂ LogEntry.Settles log log :=
  List.forall₂_same.mpr fun _ _ => ⟨rfl, rfl, id⟩

private theorem settles_modify (log : List LogEntry) (index : Nat) :
    List.Forall₂ LogEntry.Settles log
      (log.modify index fun entry => { entry with visible := true }) := by
  induction log generalizing index with
  | nil =>
    rw [List.modify_nil]
    exact .nil
  | cons entry rest ih =>
    cases index with
    | zero =>
      rw [List.modify_zero_cons]
      exact .cons ⟨rfl, rfl, fun _ => rfl⟩ (settles_refl rest)
    | succ index =>
      rw [List.modify_succ_cons]
      exact .cons ⟨rfl, rfl, id⟩ (ih index)

private theorem settles_trans {first second third : List LogEntry}
    (before : List.Forall₂ LogEntry.Settles first second)
    (after : List.Forall₂ LogEntry.Settles second third) :
    List.Forall₂ LogEntry.Settles first third := by
  induction before generalizing third with
  | nil =>
    cases after
    exact .nil
  | cons head _ ih =>
    cases after with
    | cons head' tail' =>
      exact .cons ⟨head'.seq.trans head.seq, head'.change.trans head.change,
        fun seen => head'.visible (head.visible seen)⟩ (ih tail')

theorem commitDue_settles (inFlight : List (Nat × Nat)) (log : List LogEntry) :
    List.Forall₂ LogEntry.Settles log (commitDue inFlight log).1 := by
  induction inFlight generalizing log with
  | nil => exact settles_refl log
  | cons held rest ih =>
    obtain ⟨index, remaining⟩ := held
    rw [commitDue]
    split
    · exact settles_trans (settles_modify log index) (ih _)
    · exact ih log

theorem hostDecision_writes {command : Command}
    (decided : server.hostDecision command roll = some (outcome, after)) : server.Writes after := by
  unfold hostDecision at decided
  split at decided
  · cases decided
    exact .quiet (.refl server) le_rfl
  · split at decided
    · obtain ⟨⟨_, moved⟩, written, same⟩ := Option.map_eq_some_iff.mp decided
      cases same
      exact writeRow_writes written
    · split at decided <;> cases decided <;> exact .quiet (.refl server) le_rfl

/-- What is remembered of commands is kept beside the log. -/
theorem Writes.beside {other : Server} (writes : server.Writes after) (same : after.SameLog other)
    (seqs : other.nextSeq = after.nextSeq) : server.Writes other := by
  obtain ⟨log, byScope, rowHistory, guarded⟩ := same
  cases writes with
  | quiet same below =>
    exact .quiet ⟨log.trans same.log, byScope.trans same.byScope, rowHistory.trans same.rowHistory,
      guarded.trans same.guarded⟩ (seqs ▸ below)
  | wrote scope entry same taken next honest =>
    exact .wrote scope entry ⟨log.trans same.log, byScope.trans same.byScope,
      rowHistory.trans same.rowHistory, guarded.trans same.guarded⟩ taken (seqs.trans next) honest
  | committed settles index history guard next =>
    exact .committed (log ▸ settles) (byScope.trans index) (rowHistory.trans history)
      (guarded.trans guard) (seqs.trans next)

theorem take_writes [Hashing] {move : Move} (taken : server.take move = some after) :
    server.Writes after := by
  have upserted {scope : ScopeId} {entity : EntityName} {entityId : EntityId}
      (written : (server.writeRow scope entity entityId).map (·.2) = some after) :
      server.Writes after := by
    obtain ⟨⟨seq, moved⟩, wrote, rfl⟩ := Option.map_eq_some_iff.mp written
    exact writeRow_writes wrote
  cases move with
  | registerCommand name entity scope =>
    cases taken
    exact .quiet ⟨rfl, rfl, rfl, rfl⟩ le_rfl
  | holdNextWrite delay =>
    cases taken
    exact .quiet ⟨rfl, rfl, rfl, rfl⟩ le_rfl
  | advanceCommits =>
    cases taken
    exact .committed (commitDue_settles server.inFlight server.log) rfl rfl rfl rfl
  | applyCommand command roll =>
    obtain ⟨⟨result, moved⟩, answered, rfl⟩ := Option.map_eq_some_iff.mp taken
    unfold applyCommand at answered
    split at answered
    · cases answered
      exact .quiet (.refl server) le_rfl
    · cases answered
      exact .quiet ⟨rfl, rfl, rfl, rfl⟩ le_rfl
    · obtain ⟨⟨outcome, asked⟩, decided, same⟩ := Option.map_eq_some_iff.mp answered
      cases same
      exact (hostDecision_writes decided).beside ⟨rfl, rfl, rfl, rfl⟩ rfl
  | externalChange scope entity row => exact upserted taken
  | externalChangeTo scope entity entityId =>
    simp only [take, externalChangeTo] at taken
    split at taken
    · exact upserted taken
    · obtain ⟨⟨seq, moved⟩, took, rfl⟩ := Option.map_eq_some_iff.mp taken
      obtain ⟨_, rfl⟩ := takeSeq_ok took
      exact .quiet ⟨rfl, rfl, rfl, rfl⟩ (Nat.le_succ _)
  | externalDelete scope entity entityId =>
    simp only [take, externalDelete] at taken
    split at taken
    · obtain ⟨⟨seq, moved⟩, took, rfl⟩ := Option.map_eq_some_iff.mp taken
      obtain ⟨equal, rfl⟩ := takeSeq_ok took
      exact .wrote scope _ ⟨rfl, rfl, rfl, rfl⟩ equal rfl ⟨rfl, rfl⟩
    · cases taken
      exact .quiet (.refl server) le_rfl

/-! ### What every reachable server keeps -/

theorem SameLog.entries (same : server.SameLog after) (scope : ScopeId) :
    after.entries scope = server.entries scope := by
  unfold Server.entries
  rw [same.log, same.byScope]

theorem SameLog.coherent (same : server.SameLog after) (seqs : server.nextSeq ≤ after.nextSeq)
    (coherent : server.Coherent) : after.Coherent where
  ascending := by
    rw [same.log]
    exact coherent.ascending
  below := by
    rw [same.log]
    exact fun entry member => (coherent.below entry member).trans_le seqs
  honest := by
    rw [same.log]
    exact coherent.honest
  indices := by
    rw [same.byScope, same.log]
    exact coherent.indices
  history := by
    intro scope key
    have agrees := coherent.history scope key
    rwa [versions, changes, same.rowHistory, same.entries]
  guarded := same.guarded.trans coherent.guarded

theorem mem_log_of_entries {entry : LogEntry} (member : entry ∈ server.entries scope) :
    entry ∈ server.log := by
  obtain ⟨index, _, found⟩ := List.mem_filterMap.mp member
  exact List.mem_of_getElem? found

theorem Coherent.ascending_entries (coherent : server.Coherent) (scope : ScopeId) :
    KeyedLog.Ascending (fun entry : LogEntry => entry.seq.get) (server.entries scope) := by
  refine List.pairwise_filterMap.mpr ((coherent.indices scope).1.imp ?_)
  intro first second ordered entry found later found'
  obtain ⟨inside, rfl⟩ := List.getElem?_eq_some_iff.mp found
  obtain ⟨inside', rfl⟩ := List.getElem?_eq_some_iff.mp found'
  exact List.pairwise_iff_getElem.mp coherent.ascending first second inside inside' ordered

theorem Coherent.entries_addEntry (coherent : server.Coherent) (scope : ScopeId) (entry : LogEntry)
    (other : ScopeId) : (server.addEntry scope entry).entries other =
      if other = scope then server.entries scope ++ [entry] else server.entries other := by
  have kept (third : ScopeId) : ((server.byScope.lookup third).getD []).filterMap
      (fun index => (server.log ++ [entry])[index]?) = server.entries third := by
    refine List.filterMap_congr fun index member => ?_
    exact List.getElem?_append_left ((coherent.indices third).2 index member)
  simp only [entries, addEntry, Table.lookup_insert_if]
  split
  · rename_i here
    rw [Option.getD_some, List.filterMap_append, kept]
    simp [entries]
  · exact kept other

theorem versions_addEntry (server : Server) (scope : ScopeId) (entry : LogEntry) (other : ScopeId)
    (key : RowKey) : (server.addEntry scope entry).versions other key =
      server.versions other key ++
        if other = scope ∧ entry.change.key = key then [(entry.seq.get, entry.change.rowVersion)]
        else [] := by
  simp only [versions, addEntry, Table.lookup_insert_if]
  by_cases here : other = scope
  · subst other
    by_cases row : entry.change.key = key
    · subst key
      cases held : server.rowHistory.lookup scope <;> simp
    · have row' : key ≠ entry.change.key := Ne.symm row
      cases held : server.rowHistory.lookup scope <;> simp [row, row']
  · simp [here]

theorem Coherent.wrote (coherent : server.Coherent) {entry : LogEntry}
    (taken : entry.seq.get = server.nextSeq)
    (honest : entry.change.seq = entry.seq ∧ entry.change.validate = .ok ()) :
    { server.addEntry scope entry with nextSeq := server.nextSeq + 1 : Server }.Coherent where
  ascending := by
    refine KeyedLog.Ascending.append_iff.mpr ⟨coherent.ascending, List.pairwise_singleton _ _, ?_⟩
    intro earlier member later last
    rw [List.mem_singleton.mp last, taken]
    exact coherent.below earlier member
  below := by
    intro other member
    rcases List.mem_append.mp member with member | member
    · exact Nat.lt_succ_of_lt (coherent.below other member)
    · rw [List.mem_singleton.mp member, taken]
      exact Nat.lt_succ_self _
  honest := by
    intro other member
    rcases List.mem_append.mp member with member | member
    · exact coherent.honest other member
    · rwa [List.mem_singleton.mp member]
  indices := by
    intro other
    obtain ⟨ordered, inside⟩ := coherent.indices other
    have grown : ∀ index ∈ (server.byScope.lookup other).getD [],
        index < (server.log ++ [entry]).length := fun index member => by
      rw [List.length_append]
      exact Nat.lt_add_right _ (inside index member)
    simp only [addEntry, Table.lookup_insert_if]
    split
    · rename_i here
      subst other
      rw [Option.getD_some]
      refine ⟨List.pairwise_append.mpr ⟨ordered, List.pairwise_singleton _ _, ?_⟩, ?_⟩
      · intro index member last same
        rw [List.mem_singleton.mp same]
        exact inside index member
      · intro index member
        rcases List.mem_append.mp member with member | member
        · exact grown index member
        · simp [List.mem_singleton.mp member]
    · exact ⟨ordered, grown⟩
  history := by
    intro other key
    have added := coherent.entries_addEntry scope entry other
    change (server.addEntry scope entry).versions other key =
      (((server.addEntry scope entry).entries other).map _ |>.filter _).map _
    rw [versions_addEntry, coherent.history, added]
    by_cases here : other = scope
    · subst other
      by_cases row : entry.change.key = key
      · simp [changes, row, honest.1]
      · simp [changes, row]
    · simp [changes, here]
  guarded := coherent.guarded

theorem settles_at {log log' : List LogEntry} (settles : List.Forall₂ LogEntry.Settles log log')
    (index : Nat) : Option.Rel LogEntry.Settles log[index]? log'[index]? := by
  induction settles generalizing index with
  | nil => exact .none
  | cons head _ ih =>
    cases index with
    | zero => exact .some head
    | succ index => exact ih index

theorem entries_settle (settles : List.Forall₂ LogEntry.Settles server.log after.log)
    (byScope : after.byScope = server.byScope) (scope : ScopeId) :
    List.Forall₂ LogEntry.Settles (server.entries scope) (after.entries scope) := by
  unfold entries
  rw [byScope]
  induction (server.byScope.lookup scope).getD [] with
  | nil => exact .nil
  | cons index rest ih =>
    have settled := settles_at settles index
    rw [List.filterMap_cons, List.filterMap_cons]
    cases found : server.log[index]? with
    | none =>
      rw [found] at settled
      cases settled' : after.log[index]? with
      | none => exact ih
      | some entry =>
        rw [settled'] at settled
        cases settled
    | some entry =>
      rw [found] at settled
      cases settled' : after.log[index]? with
      | none =>
        rw [settled'] at settled
        cases settled
      | some entry' =>
        rw [settled'] at settled
        cases settled with
        | some head => exact .cons head ih

theorem map_settles {View : Type} {view : LogEntry → View} {before later : List LogEntry}
    (settles : List.Forall₂ LogEntry.Settles before later)
    (same : ∀ entry entry', LogEntry.Settles entry entry' → view entry' = view entry) :
    later.map view = before.map view := by
  induction settles with
  | nil => rfl
  | cons head _ ih => rw [List.map_cons, List.map_cons, same _ _ head, ih]

theorem Coherent.committed (coherent : server.Coherent)
    (settles : List.Forall₂ LogEntry.Settles server.log after.log)
    (byScope : after.byScope = server.byScope) (rowHistory : after.rowHistory = server.rowHistory)
    (guarded : after.commitOrderGuard = server.commitOrderGuard)
    (seqs : after.nextSeq = server.nextSeq) : after.Coherent := by
  have seqsOf : after.log.map (fun entry => entry.seq.get) =
      server.log.map fun entry => entry.seq.get :=
    map_settles settles fun _ _ settled => by rw [settled.seq]
  have before : ∀ entry' ∈ after.log, ∃ entry ∈ server.log, LogEntry.Settles entry entry' := by
    intro entry' member
    obtain ⟨index, inside, rfl⟩ := List.getElem_of_mem member
    have settled := settles_at settles index
    rw [List.getElem?_eq_getElem inside] at settled
    cases found : server.log[index]? with
    | none =>
      rw [found] at settled
      cases settled
    | some entry =>
      rw [found] at settled
      cases settled with
      | some settled => exact ⟨entry, List.mem_of_getElem? found, settled⟩
  constructor
  · have ascending : (server.log.map fun entry => entry.seq.get).Pairwise (· < ·) :=
      List.pairwise_map.mpr coherent.ascending
    rw [← seqsOf] at ascending
    exact List.pairwise_map.mp ascending
  · intro entry' member
    obtain ⟨entry, inside, settled⟩ := before entry' member
    rw [settled.seq, seqs]
    exact coherent.below entry inside
  · intro entry' member
    obtain ⟨entry, inside, settled⟩ := before entry' member
    rw [settled.seq, settled.change]
    exact coherent.honest entry inside
  · rw [byScope, ← settles.length_eq]
    exact coherent.indices
  · intro scope key
    have agrees := coherent.history scope key
    have same : after.changes scope = server.changes scope :=
      map_settles (entries_settle settles byScope scope) fun _ _ settled => settled.change
    rwa [versions, rowHistory, same]
  · exact guarded.trans coherent.guarded

theorem Coherent.next (coherent : server.Coherent) (writes : server.Writes after) :
    after.Coherent := by
  cases writes with
  | quiet same seqs => exact same.coherent seqs coherent
  | wrote scope entry same taken seqs honest =>
    have added :
        { server.addEntry scope entry with nextSeq := server.nextSeq + 1 : Server }.Coherent :=
      coherent.wrote taken honest
    have same' : SameLog { server.addEntry scope entry with nextSeq := server.nextSeq + 1 } after :=
      ⟨same.log, same.byScope, same.rowHistory, same.guarded⟩
    exact same'.coherent seqs.ge added
  | committed settles byScope rowHistory guarded seqs =>
    exact coherent.committed settles byScope rowHistory guarded seqs

private theorem visible_extends {before later : List LogEntry}
    (settles : List.Forall₂ LogEntry.Settles before later) :
    (before.takeWhile (·.visible)).map (·.change) <+: (later.takeWhile (·.visible)).map (·.change) := by
  induction settles with
  | nil => exact List.prefix_rfl
  | @cons entry entry' _ _ head _ ih =>
    cases seen : entry.visible with
    | false => simp [seen]
    | true => simpa [seen, head.visible seen, head.change] using ih

private theorem takeWhile_extends (test : LogEntry → Bool) (before later : List LogEntry) :
    before.takeWhile test <+: (before ++ later).takeWhile test := by
  induction before with
  | nil => exact List.nil_prefix
  | cons entry rest ih =>
    cases passes : test entry with
    | false => simp [passes]
    | true => simpa [passes] using ih

/-- What can be read of a scope only grows, at its end. -/
theorem Coherent.readable_grows (coherent : server.Coherent) (writes : server.Writes after)
    (scope : ScopeId) : server.readable scope <+: after.readable scope := by
  cases writes with
  | quiet same seqs =>
    rw [readable, readable, same.entries]
  | wrote home entry same taken seqs honest =>
    rw [readable, readable, same.entries, coherent.entries_addEntry]
    split
    · rename_i here
      rw [here]
      exact (takeWhile_extends _ _ _).map _
    · exact List.prefix_rfl
  | committed settles byScope rowHistory guarded seqs =>
    exact visible_extends (entries_settle settles byScope scope)

theorem coherent_new : ({} : Server).Coherent where
  ascending := List.Pairwise.nil
  below := nofun
  honest := nofun
  indices := fun _ => ⟨List.Pairwise.nil, nofun⟩
  history := fun _ _ => rfl
  guarded := rfl

/-! ### The expected rows -/

theorem Coherent.ascending_changes (coherent : server.Coherent) (scope : ScopeId) :
    KeyedLog.Ascending (fun change : Change => change.seq.get) (server.changes scope) := by
  refine List.pairwise_map.mpr ((coherent.ascending_entries scope).imp_of_mem ?_)
  intro first second member later ordered
  change first.change.seq.get < second.change.seq.get
  rwa [(coherent.honest first (mem_log_of_entries member)).1,
    (coherent.honest second (mem_log_of_entries later)).1]

theorem readable_begins (server : Server) (scope : ScopeId) :
    server.readable scope <+: server.changes scope := by
  apply List.IsPrefix.map
  exact List.takeWhile_prefix _

theorem lastAt_eq (versions : RowVersions) (cursor : Nat) : lastAt versions cursor =
    (versions.takeWhile fun version => decide (version.1 ≤ cursor)).getLast?.map (·.2) := by
  have split : (versions.takeWhile fun version => decide (version.1 ≤ cursor)) <+: versions :=
    List.takeWhile_prefix _
  unfold lastAt partitionPoint
  simp only
  generalize (versions.takeWhile fun version => decide (version.1 ≤ cursor)) = found at split
  obtain ⟨rest, rfl⟩ := split
  cases found using List.reverseRecOn with
  | nil => rfl
  | append_singleton earlier last => simp

theorem rowVersionAt_versions (server : Server) (scope : ScopeId) (key : RowKey) (cursor : Nat) :
    server.rowVersionAt scope key cursor = lastAt (server.versions scope key) cursor := by
  unfold rowVersionAt versions
  cases (server.rowHistory.lookup scope).bind fun history => history.lookup key <;> rfl

/-- The version expected of a row is the one its last change up to the cursor named,
whatever that change did. -/
theorem Coherent.rowVersionAt_eq (coherent : server.Coherent) (scope : ScopeId) (key : RowKey)
    (cursor : Nat) : server.rowVersionAt scope key cursor =
      ((KeyedLog.upTo (fun change : Change => change.seq.get) cursor (server.changes scope)).filter
        fun change => change.key = key).getLast?.map (·.rowVersion) := by
  have ascending := (coherent.ascending_changes scope).filter fun change => change.key = key
  have found := ascending.takeWhile_eq cursor
  rw [rowVersionAt_versions, coherent.history, lastAt_eq, List.takeWhile_map, List.getLast?_map,
    Option.map_map]
  change ((List.takeWhile (fun change : Change => decide (change.seq.get ≤ cursor)) _).getLast?.map _) = _
  rw [found, KeyedLog.upTo, KeyedLog.upTo, List.filter_comm]
  rfl

end Server

/-- A table's rows as the digest is taken over them. -/
def rowsOf (table : Table RowKey RowVersion) : Multiset (EntityName × EntityId × RowVersion) :=
  table.entries.map fun row => (row.1.1, row.1.2, row.2)

theorem rowsOf_injective : Function.Injective rowsOf := by
  intro table other same
  apply Finmap.ext
  refine Multiset.map_injective ?_ same
  rintro ⟨⟨entity, entityId⟩, version⟩ ⟨⟨entity', entityId'⟩, version'⟩ equal
  cases equal
  rfl

/-- The last change of a row in an ascending list is its latest. -/
theorem last_iff {changes : List Change} {change : Change}
    (ascending : KeyedLog.Ascending (fun change : Change => change.seq.get) changes) :
    (changes.filter fun other => other.key = key).getLast? = some change ↔
      change ∈ changes ∧ change.key = key ∧ isLatest changes change = true := by
  have forward {last : Change}
      (found : (changes.filter fun other => other.key = key).getLast? = some last) :
      last ∈ changes ∧ last.key = key ∧ isLatest changes last = true := by
    obtain ⟨member, row⟩ := List.mem_filter.mp (List.mem_of_getLast? found)
    have row := of_decide_eq_true row
    refine ⟨member, row, isLatest_iff.mpr fun other inside same => ?_⟩
    have kept : other ∈ changes.filter fun other => other.key = key :=
      List.mem_filter.mpr ⟨inside, decide_eq_true (same.trans row)⟩
    have reached : other.seq.get ≤ KeyedLog.reached (fun change : Change => change.seq.get) 0
        (changes.filter fun other => other.key = key) := (ascending.filter _).le_reached kept
    rwa [KeyedLog.reached, found] at reached
  constructor
  · exact forward
  · rintro ⟨member, row, latest⟩
    cases found : (changes.filter fun other => other.key = key).getLast? with
    | none =>
      have empty := List.getLast?_eq_none_iff.mp found
      have present : change ∈ changes.filter fun other => other.key = key :=
        List.mem_filter.mpr ⟨member, decide_eq_true row⟩
      rw [empty] at present
      cases present
    | some last =>
      obtain ⟨inside, row', latest'⟩ := forward found
      have same := row.trans row'.symm
      rw [ascending.unique member inside (Nat.le_antisymm
        (isLatest_iff.mp latest' change member same)
        (isLatest_iff.mp latest last inside same.symm))]

/-- The rows a client holds once it has applied some changes in order. -/
def folded (changes : List Change) : Multiset (EntityName × EntityId × RowVersion) :=
  rowsOf (KeyedLog.liveTable (changes.map Change.entry))

theorem lookup_folded (changes : List Change) (key : RowKey) :
    (KeyedLog.liveTable (changes.map Change.entry)).lookup key =
      (changes.filter fun change => change.key = key).getLast?.bind Change.held := by
  rw [KeyedLog.lookup_liveTable, KeyedLog.live_eq_last, List.filter_map, List.getLast?_map]
  change Option.bind (Option.map Change.entry
    (changes.filter fun change => change.key = key).getLast?) _ = _
  cases (changes.filter fun change => change.key = key).getLast? <;> rfl

namespace Server

variable {server after : Server} {scope : ScopeId}

/-- The changes of a scope up to a cursor. -/
def upTo (server : Server) (scope : ScopeId) (cursor : Nat) : List Change :=
  KeyedLog.upTo (fun change : Change => change.seq.get) cursor (server.changes scope)

/-- No row's last change up to a cursor is a delete. -/
def NoneGone (server : Server) (scope : ScopeId) (cursor : Nat) : Prop :=
  ∀ change ∈ server.upTo scope cursor, isLatest (server.upTo scope cursor) change = true →
    change.op ≠ .delete

theorem rowsAt_eq (server : Server) (scope : ScopeId) (cursor : Nat) :
    ∃ table, server.rowsAt scope cursor = rowsOf table ∧
      ∀ key, table.lookup key = server.rowVersionAt scope key cursor := by
  unfold rowsAt rowVersionAt
  cases server.rowHistory.lookup scope with
  | none => exact ⟨∅, rfl, fun _ => rfl⟩
  | some history =>
    refine ⟨history.filterMap fun versions => lastAt versions cursor, ?_, fun key => ?_⟩
    · rw [rowsOf, Table.filterMap, Multiset.map_filterMap]
      simp only [Option.map_map]
      rfl
    · exact Table.lookup_filterMap _ history key

/-- The rows expected of a client at a cursor are those it folds up to there, exactly when
none of them was deleted last. -/
theorem Coherent.rowsAt_iff (coherent : server.Coherent) (scope : ScopeId) (cursor : Nat) :
    server.rowsAt scope cursor = folded (server.upTo scope cursor) ↔
      server.NoneGone scope cursor := by
  obtain ⟨table, rows, looked⟩ := server.rowsAt_eq scope cursor
  have ascending : KeyedLog.Ascending (fun change : Change => change.seq.get)
      (server.upTo scope cursor) := (coherent.ascending_changes scope).filter _
  have both (key : RowKey) : table.lookup key = ((server.upTo scope cursor).filter
      fun change => change.key = key).getLast?.map (·.rowVersion) :=
    (looked key).trans (coherent.rowVersionAt_eq scope key cursor)
  have same : server.rowsAt scope cursor = folded (server.upTo scope cursor) ↔
      ∀ key, table.lookup key =
        (KeyedLog.liveTable ((server.upTo scope cursor).map Change.entry)).lookup key := by
    rw [rows, folded, rowsOf_injective.eq_iff]
    exact ⟨fun equal key => by rw [equal], Finmap.ext_lookup⟩
  rw [same]
  constructor
  · intro agree change member latest deleted
    have last : ((server.upTo scope cursor).filter fun other => other.key = change.key).getLast? =
        some change := (last_iff ascending).mpr ⟨member, rfl, latest⟩
    have equal := agree change.key
    rw [both, lookup_folded, last] at equal
    simp [Change.held, deleted] at equal
  · intro none key
    rw [both, lookup_folded]
    cases last : ((server.upTo scope cursor).filter fun change => change.key = key).getLast? with
    | none => rfl
    | some change =>
      obtain ⟨member, row, latest⟩ := (last_iff ascending).mp last
      have kept := none change member latest
      cases written : change.op with
      | upsert => simp [Change.held, written]
      | delete => exact absurd written kept

end Server

end CredSync.Sim
