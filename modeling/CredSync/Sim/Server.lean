import CredSync.Library.Run
import CredSync.Server.Dedupe
import CredSync.Sync.ScopeLog

/-! The simulated server: one change log shared by every scope, the indices kept over it,
and a dedupe table of its own. Everything it decides is its own code, except the rule a
submission is judged by and the filling of a batch, which are the real server's. -/

namespace CredSync.Sim

/-- One entry of the change log. Its `seq` is taken before its transaction commits. -/
structure LogEntry where
  seq : Seq
  change : Change
  visible : Bool

/-- What was decided about a command, kept for replays. -/
structure DedupeEntry where
  checksum : HexString
  result : CommandResult
  deriving DecidableEq

/-- Every version one row has held, in `seq` order. -/
abbrev RowVersions := List (Nat × RowVersion)

abbrev RowHistory := Table ScopeId (Table RowKey RowVersions)

structure Server where
  log : List LogEntry := []
  /-- Indices into the log, in `seq` order. -/
  byScope : Table ScopeId (List Nat) := ∅
  /-- Live rows. -/
  rows : Table ScopeId (Table RowKey RowVersion) := ∅
  rowHistory : RowHistory := ∅
  dedupe : Table CommandId DedupeEntry := ∅
  nextSeq : Nat := 1
  commandTargets : Table Bytes (EntityName × ScopeId) := ∅
  /-- Entries not committed yet, each with the steps that remain. -/
  inFlight : List (Nat × Nat) := []
  holdNext : Nat := 0
  commitOrderGuard : Bool := true

/-- `partition_point`: how many items pass a test that no later one passes again. -/
def partitionPoint (test : Item → Bool) (items : List Item) : Nat := (items.takeWhile test).length

/-- Three to one, whatever the bytes. -/
def compressedLen (bytes : Bytes) : Nat := (bytes.length + 2) / 3

/-- `{ "v": seq }`. -/
def versionDocument (seq : Seq) : Value := .object [("v", .number (.posInt (UInt64.ofNat seq.get)))]

private theorem length_printNat (n : UInt64) : (ascii (toString n.toNat)).length ≤ 20 := by
  have small : n.toNat < 10 ^ 20 := n.toNat_lt.trans (by decide)
  rw [ascii, List.length_map, String.length_toList]
  exact (Nat.length_repr_le_iff (by decide)).mpr small

theorem versionDocument_valid (seq : Seq) :
    Document.check Limits.snapshotMaxBytes "snapshot" (versionDocument seq) = .ok () := by
  have digits := length_printNat (UInt64.ofNat seq.get)
  have short : (Canonical.print (versionDocument seq)).length ≤ Limits.snapshotMaxBytes := by
    have key : (Canonical.quote "v").length = 3 := by decide
    simp only [versionDocument, Canonical.print, Canonical.printFields, Canonical.joinComma,
      Canonical.printNumber, List.length_append, List.length_cons, List.length_nil, key]
    exact Nat.le_trans (Nat.add_le_add_right (Nat.add_le_add_right
      (Nat.add_le_add_left (Nat.add_le_add_right digits 1) 3) 1) 1) (by decide)
  have plain : Canonical.hasFloat (versionDocument seq) = false := by rfl
  rw [Document.check, plain, if_neg (Nat.not_lt.mpr short)]
  rfl

def versionSnapshot (seq : Seq) : Snapshot := ⟨versionDocument seq, versionDocument_valid seq⟩

/-- `row:n`, one of the eight rows a seed or a command id picks. -/
def rowNamed (n : Fin 8) : EntityId := ⟨ascii s!"row:{n.val}", by revert n; decide⟩

def rowVersionOf (seq : Seq) : RowVersion := ⟨seq.get, seq.lower, seq.upper⟩

/-- The change of an upsert that took `seq`. -/
def upsertAt (seq : Seq) (entity : EntityName) (entityId : EntityId) : Change where
  seq := seq
  entity := entity
  entityId := entityId
  op := .upsert
  snapshot := some (versionSnapshot seq)
  rowVersion := rowVersionOf seq
  schemaVersion := 1

/-- The tombstone of a delete that took `seq`. -/
def deleteAt (seq : Seq) (entity : EntityName) (entityId : EntityId) : Change where
  seq := seq
  entity := entity
  entityId := entityId
  op := .delete
  snapshot := none
  rowVersion := rowVersionOf seq
  schemaVersion := 1

namespace Server

/-! ### Writing -/

def registerCommand (server : Server) (name : Bytes) (entity : EntityName) (scope : ScopeId) :
    Server :=
  { server with commandTargets := server.commandTargets.insert name (entity, scope) }

def holdNextWrite (server : Server) (delay : Nat) : Server :=
  { server with holdNext := if delay = 0 then 1 else delay }

/-- The loop of `advance_commits`: what is due becomes visible, the rest waits on. -/
def commitDue : List (Nat × Nat) → List LogEntry → List LogEntry × List (Nat × Nat)
  | [], log => (log, [])
  | (index, remaining) :: rest, log =>
    if remaining ≤ 1 then
      commitDue rest (log.modify index fun entry => { entry with visible := true })
    else
      let (log, waiting) := commitDue rest log
      (log, (index, remaining - 1) :: waiting)

def advanceCommits (server : Server) : Server :=
  let (log, waiting) := commitDue server.inFlight server.log
  { server with log := log, inFlight := waiting }

/-- Takes the next `seq`. None is the `unreachable!` past the last one. -/
def takeSeq (server : Server) : Option (Seq × Server) :=
  match (BoundedNum.new server.nextSeq : Except ProtocolError Seq) with
  | .ok seq => some (seq, { server with nextSeq := server.nextSeq + 1 })
  | .error _ => none

/-- The log, the scope's index and the row's history move together. -/
def addEntry (server : Server) (scope : ScopeId) (entry : LogEntry) : Server :=
  let history := (server.rowHistory.lookup scope).getD ∅
  let versions := (history.lookup entry.change.key).getD []
  { server with
    log := server.log ++ [entry]
    byScope := server.byScope.insert scope
      ((server.byScope.lookup scope).getD [] ++ [server.log.length])
    rowHistory := server.rowHistory.insert scope
      (history.insert entry.change.key (versions ++ [(entry.seq.get, entry.change.rowVersion)])) }

/-- Appends an upsert, held open if the next write is to be. -/
def pushEntry (server : Server) (seq : Seq) (scope : ScopeId) (entity : EntityName)
    (entityId : EntityId) : Server :=
  let held := server.holdNext
  let index := server.log.length
  { server.addEntry scope ⟨seq, upsertAt seq entity entityId, decide (held = 0)⟩ with
    holdNext := 0
    inFlight := if 0 < held then server.inFlight ++ [(index, held)] else server.inFlight }

def setRow (server : Server) (scope : ScopeId) (key : RowKey) (version : RowVersion) : Server :=
  { server with
    rows := server.rows.insert scope (((server.rows.lookup scope).getD ∅).insert key version) }

def removeRow (server : Server) (scope : ScopeId) (key : RowKey) : Server :=
  { server with
    rows := server.rows.insert scope (Finmap.erase key ((server.rows.lookup scope).getD ∅)) }

/-- One upsert of a row: its `seq`, the live row, and the entry. -/
def writeRow (server : Server) (scope : ScopeId) (entity : EntityName) (entityId : EntityId) :
    Option (Seq × Server) :=
  server.takeSeq.map fun (seq, server) =>
    (seq, (server.setRow scope (entity, entityId) (rowVersionOf seq)).pushEntry seq scope entity
      entityId)

/-- The row a command writes is derived from its id. -/
def append (server : Server) (scope : ScopeId) (entity : EntityName) (command : Command) :
    Option (Seq × Server) :=
  server.writeRow scope entity (rowNamed (Fin.ofNat 8 command.id.bytes[15].toNat))

/-- A change nobody asked for, to a row the seed picks. -/
def externalChange (server : Server) (scope : ScopeId) (entity : EntityName) (row : Fin 8) :
    Option Server :=
  (server.writeRow scope entity (rowNamed row)).map (·.2)

/-- An external write to a named row. A name that is no row's id has taken its `seq`. -/
def externalChangeTo (server : Server) (scope : ScopeId) (entity : EntityName) (entityId : Bytes) :
    Option Server :=
  match (BoundedString.new entityId : Except ProtocolError EntityId) with
  | .ok entityId => (server.writeRow scope entity entityId).map (·.2)
  | .error _ => server.takeSeq.map (·.2)

/-- Deletes a row. A tombstone is never held open. -/
def externalDelete (server : Server) (scope : ScopeId) (entity : EntityName) (entityId : Bytes) :
    Option Server :=
  match (BoundedString.new entityId : Except ProtocolError EntityId) with
  | .ok entityId => server.takeSeq.map fun (seq, server) =>
      (server.removeRow scope (entity, entityId)).addEntry scope
        ⟨seq, deleteAt seq entity entityId, true⟩
  | .error _ => some server

/-! ### Answering commands -/

def unknownCommand : Reason := ⟨"Unknown command.", by decide⟩
def deadlinePassed : Reason := ⟨"Submission deadline passed.", by decide⟩

/-- What the simulated host decides about a fresh command, given the roll of the run. -/
def hostDecision (server : Server) (command : Command) (roll : Nat) :
    Option (HostOutcome × Server) :=
  match server.commandTargets.lookup command.name.bytes with
  | none => some (.rejected unknownCommand, server)
  | some (entity, scope) =>
    if roll < 80 then
      (server.append scope entity command).map fun (seq, server) => (.applied seq, server)
    else if roll < 90 then some (.superseded, server)
    else some (.rejected deadlinePassed, server)

/-- What the dedupe table holds for a command id. -/
def recorded (server : Server) (id : CommandId) : Option Recorded :=
  (server.dedupe.lookup id).map fun prior => ⟨prior.checksum.bytes, prior.result⟩

section Answer

variable [Hashing]

def remember (server : Server) (command : Command) (result : CommandResult) : Server :=
  { server with
    dedupe := server.dedupe.insert command.id ⟨payloadChecksum command.payload, result⟩ }

/-- Answers one command of a push. The rule is the real one; what is remembered is not. -/
def applyCommand (server : Server) (command : Command) (roll : Nat) :
    Option (CommandResult × Server) :=
  match Dedupe.decide command (server.recorded command.id) with
  | .replay result => some (result, server)
  | .mutated .. =>
    let result : CommandResult := ⟨command.id, .rejected, some Dedupe.mutatedReason, none⟩
    some (result, server.remember command result)
  | .fresh =>
    (server.hostDecision command roll).map fun (outcome, server) =>
      (outcome.result command.id, server.remember command (outcome.result command.id))

end Answer

/-! ### Reading -/

/-- A scope's entries, as its index lists them. -/
def entries (server : Server) (scope : ScopeId) : List LogEntry :=
  ((server.byScope.lookup scope).getD []).filterMap fun index => server.log[index]?

/-- The loop of `visible_head`. -/
def headFrom (head : Nat) : List LogEntry → Nat
  | [] => head
  | entry :: rest => if entry.visible then headFrom entry.seq.get rest else head

/-- The highest `seq` of a scope with every earlier entry committed. -/
def visibleHead (server : Server) (scope : ScopeId) : Nat := headFrom 0 (server.entries scope)

/-- The last version at or below a cursor. -/
def lastAt (versions : RowVersions) (cursor : Nat) : Option RowVersion :=
  let index := partitionPoint (fun version => decide (version.1 ≤ cursor)) versions
  if 0 < index then versions[index - 1]?.map (·.2) else none

/-- Every row a client at a cursor should hold, with its version. -/
def rowsAt (server : Server) (scope : ScopeId) (cursor : Nat) :
    Multiset (EntityName × EntityId × RowVersion) :=
  match server.rowHistory.lookup scope with
  | none => 0
  | some history => history.entries.filterMap fun row =>
      (lastAt row.2 cursor).map fun version => (row.1.1, row.1.2, version)

/-- The version a row should hold on a client at a cursor. -/
def rowVersionAt (server : Server) (scope : ScopeId) (key : RowKey) (cursor : Nat) :
    Option RowVersion :=
  ((server.rowHistory.lookup scope).bind fun history => history.lookup key).bind
    fun versions => lastAt versions cursor

/-- What a pull walks: up to the first uncommitted entry, or past them all without the guard. -/
def walk (guard : Bool) : List LogEntry → List Change
  | [] => []
  | entry :: rest =>
    if entry.visible then entry.change :: walk guard rest
    else if guard then []
    else walk guard rest

/-- A scope's rows by their latest visible entry. -/
abbrev Latest := AList fun _ : RowKey => Nat × Change

def keepLatest (latest : Latest) (entry : LogEntry) : Latest :=
  match latest.lookup entry.change.key with
  | some held =>
    if held.1 < entry.seq.get then latest.insert entry.change.key (entry.seq.get, entry.change)
    else latest
  | none => latest.insert entry.change.key (entry.seq.get, entry.change)

/-- The loop of `bootstrap` over a scope's entries. -/
def latestVisible (guard : Bool) : List LogEntry → Latest → Latest
  | [], latest => latest
  | entry :: rest, latest =>
    if entry.visible then latestVisible guard rest (keepLatest latest entry)
    else if guard then latest
    else latestVisible guard rest latest

/-- What a bootstrap may carry: the compacted log, tombstones only to a device that holds
something, sorted by `seq`. -/
def bootstrapCandidates (latest : Latest) (after : Nat) : List Change :=
  ((latest.entries.map fun row => row.2).filter fun held =>
    decide (after < held.1) && (decide (held.2.op ≠ .delete) || decide (0 < after))).map (·.2)
    |>.insertionSort fun first second => first.seq.get ≤ second.seq.get

section Pages

variable [Hashing]

def digest (server : Server) (scope : ScopeId) : ScopeDigest :=
  ScopeDigest.fromRows (server.rowsAt scope (server.visibleHead scope))

/-- What `pull` answers for one scope. -/
def pullScope (server : Server) (request : ScopeCursor) (rowLimit budgetBytes : Nat) : Batch :=
  let entries := server.entries request.scope
  let start := partitionPoint (fun entry => decide (entry.seq.get ≤ request.cursor.get)) entries
  let available := entries.length - start
  let candidates := (walk server.commitOrderGuard (entries.drop start)).take rowLimit
  fillBatch compressedLen request.scope request.cursor candidates
    (decide (candidates.length < available)) budgetBytes (server.digest request.scope).toHex

def pull (server : Server) (scopes : List ScopeCursor) (rowLimit budgetBytes : Nat) : List Batch :=
  scopes.map fun request => server.pullScope request rowLimit budgetBytes

/-- Answers a bootstrap: the compacted log of a scope. -/
def bootstrap (server : Server) (request : BootstrapRequest) (budgetBytes : Nat) :
    BootstrapResponse :=
  let latest := latestVisible server.commitOrderGuard (server.entries request.scope) ∅
  let batch := fillBatch compressedLen request.scope request.after
    (bootstrapCandidates latest request.after.get) false budgetBytes
    (server.digest request.scope).toHex
  { protocol := request.protocol
    scope := request.scope
    changes := batch.changes
    nextCursor := batch.nextCursor
    hasMore := batch.hasMore
    checksum := batch.checksum
    digest := batch.digest }

end Pages

end Server

/-! ### Runs -/

/-- What a run does to its server. -/
inductive Move where
  | registerCommand (name : Bytes) (entity : EntityName) (scope : ScopeId)
  | holdNextWrite (delay : Nat)
  | advanceCommits
  | applyCommand (command : Command) (roll : Nat)
  | externalChange (scope : ScopeId) (entity : EntityName) (row : Fin 8)
  | externalChangeTo (scope : ScopeId) (entity : EntityName) (entityId : Bytes)
  | externalDelete (scope : ScopeId) (entity : EntityName) (entityId : Bytes)

def Server.take [Hashing] (server : Server) : Move → Option Server
  | .registerCommand name entity scope => some (server.registerCommand name entity scope)
  | .holdNextWrite delay => some (server.holdNextWrite delay)
  | .advanceCommits => some server.advanceCommits
  | .applyCommand command roll => (server.applyCommand command roll).map (·.2)
  | .externalChange scope entity row => server.externalChange scope entity row
  | .externalChangeTo scope entity entityId => server.externalChangeTo scope entity entityId
  | .externalDelete scope entity entityId => server.externalDelete scope entity entityId

end CredSync.Sim
