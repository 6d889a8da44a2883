import CredSync.Protocol.Canonical

/-! The wire types and the rules that relate their fields. -/

namespace CredSync

/-- What `serde` makes of a wire type: the document that is then printed. -/
class Serialize (α : Type) where
  toValue : α → Value

/-- `canonical::to_vec`. -/
def Canonical.toVec [Serialize α] (value : α) : Bytes := print (Serialize.toValue value)

instance [Serialize α] : Serialize (List α) := ⟨fun items => .array (items.map Serialize.toValue)⟩
instance {field : String} {min max : Nat} : Serialize (BoundedNum field min max) :=
  ⟨fun n => .number (.posInt (UInt64.ofNat n.get))⟩
instance {field expected : String} {max : Nat} {ok : UInt8 → Bool} :
    Serialize (BoundedString field expected max ok) := ⟨fun s => .string (asText s.bytes)⟩
instance : Serialize HexString := ⟨fun s => .string (asText s.bytes)⟩
instance : Serialize Int64 where
  toValue n :=
    if 0 ≤ n.toInt then .number (.posInt (UInt64.ofNat n.toInt.toNat))
    else .number (.negInt (Fin.ofNat (2 ^ 63) (-n.toInt - 1).toNat))

/-- Hyphens stand before the bytes 4, 6, 8 and 10. -/
def CommandId.display (id : CommandId) : Bytes :=
  id.bytes.toList.zipIdx.flatMap fun (byte, i) =>
    (if i = 4 ∨ i = 6 ∨ i = 8 ∨ i = 10 then [45] else []) ++
      [Canonical.nibble (byte.toNat / 16), Canonical.nibble (byte.toNat % 16)]

instance : Serialize CommandId := ⟨fun id => .string (asText id.display)⟩

/-- `Document::new`: an object, without floats, within its encoded size. -/
def Document.check (max : Nat) (field : String) (v : Value) : Except ProtocolError Unit :=
  if !v.isObject then .error (.notAnObject field)
  else if Canonical.hasFloat v then .error (.floatNotAllowed field)
  else if max < (Canonical.print v).length then
    .error (.tooLong field max (Canonical.print v).length)
  else .ok ()

/-- A host document, opaque beyond its size and the absence of floats. -/
structure Document (max : Nat) (field : String) where
  value : Value
  valid : Document.check max field value = .ok ()

variable {max : Nat} {field : String}

def Document.new (v : Value) : Except ProtocolError (Document max field) :=
  match valid : Document.check max field v with
  | .ok () => .ok ⟨v, valid⟩
  | .error e => .error e

@[simp] theorem Document.new_value (d : Document max field) :
    (Document.new d.value : Except ProtocolError (Document max field)) = .ok d := by
  unfold Document.new
  split
  · rfl
  · rename_i e refused
    rw [d.valid] at refused
    cases refused

theorem Document.value_of_new {v : Value} {d : Document max field} (made : Document.new v = .ok d) :
    d.value = v := by
  unfold Document.new at made
  split at made
  · cases made
    rfl
  · cases made

instance : Serialize (Document max field) := ⟨Document.value⟩

abbrev Snapshot := Document Limits.snapshotMaxBytes "snapshot"
abbrev Payload := Document Limits.payloadMaxBytes "payload"

inductive Op where
  | upsert
  | delete
  deriving DecidableEq

instance : Serialize Op where
  toValue
    | .upsert => .string "upsert"
    | .delete => .string "delete"

inductive ConflictClass where
  | serverAuthoritative
  | ownerDraft
  | appendOnly
  deriving DecidableEq

def ConflictClass.acceptsCommands : ConflictClass → Bool
  | .serverAuthoritative => false
  | _ => true

structure EntityRegistration where
  entity : EntityName
  scope : ScopeId
  conflictClass : ConflictClass
  schemaVersion : SchemaVersion
  deriving DecidableEq

structure Change where
  seq : Seq
  entity : EntityName
  entityId : EntityId
  op : Op
  snapshot : Option Snapshot
  rowVersion : RowVersion
  schemaVersion : SchemaVersion

/-- An upsert has a snapshot and a delete has none. -/
def Change.validate (change : Change) : Except ProtocolError Unit :=
  match change.op, change.snapshot with
  | .upsert, none => .error (.inconsistent "op=upsert requires a snapshot")
  | .delete, some _ => .error (.inconsistent "op=delete must not carry a snapshot")
  | _, _ => .ok ()

/-- The keys in sorted order; an absent snapshot is skipped. -/
instance : Serialize Change where
  toValue change := .object <|
    [("entity", Serialize.toValue change.entity),
      ("entity_id", Serialize.toValue change.entityId),
      ("op", Serialize.toValue change.op),
      ("row_version", Serialize.toValue change.rowVersion),
      ("schema_version", Serialize.toValue change.schemaVersion),
      ("seq", Serialize.toValue change.seq)] ++
    match change.snapshot with
    | some snapshot => [("snapshot", Serialize.toValue snapshot)]
    | none => []

structure Batch where
  scope : ScopeId
  changes : List Change
  nextCursor : Cursor
  hasMore : Bool
  checksum : HexString
  digest : HexString

/-- Changes ascend strictly in `seq`. A gap cannot be seen here. -/
def Batch.validateOrdering (batch : Batch) : Except ProtocolError Unit :=
  if (batch.changes.zip batch.changes.tail).all fun (a, b) => a.seq.get < b.seq.get then .ok ()
  else .error (.inconsistent "changes must be strictly seq-ordered within a scope")

/-- An order that holds between neighbours holds throughout. -/
theorem pairwise_iff_adjacent {related : α → α → Prop}
    (trans : ∀ {a b c}, related a b → related b c → related a c) {items : List α} :
    items.Pairwise related ↔ ∀ pair ∈ items.zip items.tail, related pair.1 pair.2 := by
  induction items with
  | nil => simp
  | cons first rest ih =>
    cases rest with
    | nil => simp
    | cons second rest =>
      rw [List.pairwise_cons, ih]
      simp only [List.tail_cons, List.zip_cons_cons, List.forall_mem_cons]
      constructor
      · exact fun ⟨ahead, others⟩ => ⟨ahead.1, others⟩
      · intro ⟨next, others⟩
        refine ⟨⟨next, fun later member => ?_⟩, others⟩
        exact trans next ((List.pairwise_cons.mp (ih.mpr others)).1 later member)

theorem Batch.validateOrdering_ok_iff {batch : Batch} :
    batch.validateOrdering = .ok () ↔
      batch.changes.Pairwise fun first second => first.seq.get < second.seq.get := by
  have adjacent : (batch.changes.Pairwise fun first second => first.seq.get < second.seq.get) ↔
      ∀ pair ∈ batch.changes.zip batch.changes.tail, pair.1.seq.get < pair.2.seq.get := by
    apply pairwise_iff_adjacent
    intro a b c
    exact Nat.lt_trans
  rw [adjacent]
  unfold Batch.validateOrdering
  split
  · rename_i passes
    simpa using passes
  · rename_i fails
    simpa using fails

structure ScopeCursor where
  scope : ScopeId
  cursor : Cursor
  deriving DecidableEq

namespace Wire

structure PullRequest where
  protocol : ProtocolVersion
  scopes : List ScopeCursor
  limitBytes : Option LimitBytes

/-- The bound of the scope list. -/
def PullRequest.validate (request : PullRequest) : Except ProtocolError Unit :=
  if Limits.scopesMaxCount < request.scopes.length then
    .error (.tooManyItems "scopes" Limits.scopesMaxCount request.scopes.length)
  else .ok ()

structure PullResponse where
  protocol : ProtocolVersion
  batches : List Batch

end Wire

structure BootstrapRequest where
  protocol : ProtocolVersion
  scope : ScopeId
  after : Cursor
  deriving DecidableEq

structure BootstrapResponse where
  protocol : ProtocolVersion
  scope : ScopeId
  changes : List Change
  nextCursor : Cursor
  hasMore : Bool
  checksum : HexString
  digest : HexString

structure Command where
  id : CommandId
  name : CommandName
  scope : ScopeId
  payload : Payload
  clientTs : Int64
  checksum : HexString

instance : Serialize Command where
  toValue command := .object
    [("checksum", Serialize.toValue command.checksum),
      ("client_ts", Serialize.toValue command.clientTs),
      ("id", Serialize.toValue command.id),
      ("name", Serialize.toValue command.name),
      ("payload", Serialize.toValue command.payload),
      ("scope", Serialize.toValue command.scope)]

structure PushRequest where
  protocol : ProtocolVersion
  commands : List Command

/-- Both push limits: the number of commands, and their canonical bytes. -/
def PushRequest.validate (request : PushRequest) : Except ProtocolError Unit :=
  if Limits.commandsMaxCount < request.commands.length then
    .error (.tooManyItems "commands" Limits.commandsMaxCount request.commands.length)
  else if Limits.commandsMaxTotalBytes < (Canonical.toVec request.commands).length then
    .error (.tooLong "commands" Limits.commandsMaxTotalBytes
      (Canonical.toVec request.commands).length)
  else .ok ()

inductive Status where
  | applied
  | rejected
  | superseded
  deriving DecidableEq

structure CommandResult where
  id : CommandId
  status : Status
  reason : Option Reason
  serverSeq : Option Seq
  deriving DecidableEq

/-- A rejection carries a reason. -/
def CommandResult.validate (result : CommandResult) : Except ProtocolError Unit :=
  if result.status = .rejected ∧ result.reason = none then
    .error (.inconsistent "status=rejected requires a reason")
  else .ok ()

structure PushResponse where
  protocol : ProtocolVersion
  results : List CommandResult

structure ForcedUpgrade where
  minProtocol : ProtocolVersion
  currentProtocol : ProtocolVersion
  reason : Reason

end CredSync
