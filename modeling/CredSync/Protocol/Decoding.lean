import CredSync.Protocol.Encoding
import CredSync.Protocol.Json
import Mathlib.Data.List.Perm.Subperm

/-! How the wire types are read. A decoder walks what stands in the text and makes each
part through its checked constructor; the types whose fields depend on one another go
through a mirror and are validated whole. -/

namespace CredSync

/-- `serde`'s decoder of a type, with `room` levels left to enter. Every failure ends as one
error with a text of the parser's, so only success is told apart. -/
class Deserialize (α : Type) where
  read : Nat → Json → Option α

/-- `remaining_depth` as `serde_json` starts with it; a level that would use it up is refused. -/
def Json.recursionLimit : Nat := 128

/-- `canonical::from_slice`, over the parser that finds what stands in the text. -/
def Canonical.fromSlice [Deserialize α] (parse : Bytes → Option Json) (bytes : Bytes) : Option α :=
  (parse bytes).bind (Deserialize.read (Json.recursionLimit - 1))

/-- A string's UTF-8 bytes. -/
def utf8 (s : String) : Bytes := s.toList.flatMap String.utf8EncodeChar

instance : Deserialize Bool where
  read
    | _, .bool b => some b
    | _, _ => none

instance [Deserialize α] : Deserialize (List α) where
  read
    | room + 1, .array items => items.mapM (Deserialize.read room)
    | _, _ => none

instance {field : String} {min max : Nat} : Deserialize (BoundedNum field min max) where
  read
    | _, .number (.posInt v) => (BoundedNum.new v.toNat).toOption
    | _, _ => none

instance : Deserialize Int64 where
  read
    | _, .number (.posInt v) => if v.toNat < 2 ^ 63 then some (Int64.ofInt v.toNat) else none
    | _, .number (.negInt below) => some (Int64.ofInt (-below.val - 1))
    | _, _ => none

instance {field expected : String} {max : Nat} {ok : UInt8 → Bool} :
    Deserialize (BoundedString field expected max ok) where
  read
    | _, .string s => (BoundedString.new (utf8 s)).toOption
    | _, _ => none

instance : Deserialize HexString where
  read
    | _, .string s => (HexString.new (utf8 s)).toOption
    | _, _ => none

instance : Serialize Reason := ⟨fun reason => .string reason.text⟩
instance : Deserialize Reason where
  read
    | _, .string s => (Reason.new s).toOption
    | _, _ => none

instance : Deserialize CommandId where
  read
    | _, .string s => (CommandId.parse (utf8 s)).toOption
    | _, _ => none

instance {max : Nat} {field : String} : Deserialize (Document max field) where
  read room json := (json.value room).bind fun v => (Document.new v).toOption

instance : Serialize Bool := ⟨.bool⟩

/-- A unit variant: its name alone, or an object of its name and `null`. -/
def Json.variant : Nat → Json → Option String
  | _, .string name => some name
  | _ + 1, .object [(name, .null)] => some name
  | _, _ => none

/-- An enumeration by the names of its variants. -/
def Json.enumeration (variants : List (String × α)) (room : Nat) (json : Json) : Option α :=
  (json.variant room).bind fun name => variants.lookup name

instance : Deserialize Op := ⟨Json.enumeration [("upsert", .upsert), ("delete", .delete)]⟩

def ConflictClass.variants : List (String × ConflictClass) :=
  [("server_authoritative", .serverAuthoritative), ("owner_draft", .ownerDraft),
    ("append_only", .appendOnly)]

instance : Serialize ConflictClass where
  toValue
    | .serverAuthoritative => .string "server_authoritative"
    | .ownerDraft => .string "owner_draft"
    | .appendOnly => .string "append_only"
instance : Deserialize ConflictClass := ⟨Json.enumeration ConflictClass.variants⟩

def Status.variants : List (String × Status) :=
  [("applied", .applied), ("rejected", .rejected), ("superseded", .superseded)]

instance : Serialize Status where
  toValue
    | .applied => .string "applied"
    | .rejected => .string "rejected"
    | .superseded => .string "superseded"
instance : Deserialize Status := ⟨Json.enumeration Status.variants⟩

/-- `Bounded`: a list that stops growing while it is read. -/
structure Bounded (α : Type) (max : Nat) where
  items : List α

/-- `visit_seq`, with so many items still allowed; after the last it only probes for one more. -/
def Bounded.visitSeq [Deserialize α] (room : Nat) : Nat → List Json → Option (List α)
  | _, [] => some []
  | 0, _ :: _ => none
  | left + 1, item :: rest => do
    let first ← Deserialize.read room item
    let others ← visitSeq room left rest
    some (first :: others)

instance {max : Nat} [Serialize α] : Serialize (Bounded α max) :=
  ⟨fun bounded => Serialize.toValue bounded.items⟩
instance {max : Nat} [Deserialize α] : Deserialize (Bounded α max) where
  read
    | room + 1, .array items => (Bounded.visitSeq room max items).map Bounded.mk
    | _, _ => none

/-! ## Derived structs -/

/-- The columns of a struct in the order of their declaration: what stands in each, if
anything, and the row read from that. -/
class Columns (ρ : Type) where
  write : ρ → List (Option Value)
  read : Nat → List (Option Json) → Option ρ

instance : Columns Unit where
  write _ := []
  read
    | _, [] => some ()
    | _, _ :: _ => none

instance [Serialize α] [Deserialize α] [Columns ρ] : Columns (α × ρ) where
  write row := some (Serialize.toValue row.1) :: Columns.write row.2
  read
    | room, some json :: cells => do
      let first ← Deserialize.read room json
      let others ← Columns.read room cells
      some (first, others)
    | _, _ => none

/-- A field that is skipped when it is `None`, and `None` when it is missing or `null`. -/
instance [Serialize α] [Deserialize α] [Columns ρ] : Columns (Option α × ρ) where
  write row := row.1.map Serialize.toValue :: Columns.write row.2
  read
    | room, none :: cells => (Columns.read room cells).map fun others => (none, others)
    | room, some .null :: cells => (Columns.read room cells).map fun others => (none, others)
    | room, some json :: cells => do
      let first ← Deserialize.read room json
      let others ← Columns.read room cells
      some (some first, others)
    | _, [] => none

/-- The entries of an object: each column that holds something, under its name. -/
def Value.present (names : List String) (cells : List (Option Value)) : List (String × Value) :=
  (names.zip cells).filterMap fun entry => entry.2.map fun value => (entry.1, value)

/-- What an object has under a name: nothing or one value. A second one is refused. -/
def Json.field (fields : List (String × Json)) (name : String) : Option (Option Json) :=
  match fields.filter fun field => field.1 = name with
  | [] => some none
  | [field] => some (some field.2)
  | _ => none

/-- A struct is an object, whose unknown fields are skipped, or an array of its fields. -/
def Json.cells (names : List String) : Json → Option (List (Option Json))
  | .object fields => names.mapM (field fields)
  | .array items =>
    if items.length ≤ names.length then
      some (items.map some ++ List.replicate (names.length - items.length) none)
    else none
  | _ => none

/-- A struct that derives its decoder: its fields, and the check it then has to pass. -/
class Record (σ : Type) (ρ : outParam Type) [Columns ρ] where
  names : List String
  row : σ → ρ
  ofRow : ρ → σ
  validate : σ → Except ProtocolError Unit := fun _ => .ok ()
  distinct : names.Nodup
  width : ∀ columns : ρ, (Columns.write columns).length = names.length
  ofRow_row : ∀ value : σ, ofRow (row value) = value
  row_ofRow : ∀ columns : ρ, row (ofRow columns) = columns

variable {σ ρ : Type} [Columns ρ] [Record σ ρ]

def Record.toValue (value : σ) : Value :=
  .object (SortedMap.ofList (Value.present (names σ) (Columns.write (row value))))

def Record.read : Nat → Json → Option σ
  | room + 1, json => do
    let cells ← json.cells (names σ)
    let columns ← Columns.read room cells
    match validate (ofRow columns : σ) with
    | .ok () => some (ofRow columns)
    | .error _ => none
  | 0, _ => none

instance : Record EntityRegistration
    (EntityName × ScopeId × ConflictClass × SchemaVersion × Unit) where
  names := ["entity", "scope", "conflict_class", "schema_version"]
  row value := (value.entity, value.scope, value.conflictClass, value.schemaVersion, ())
  ofRow
    | (entity, scope, conflictClass, schemaVersion, ()) =>
      { entity, scope, conflictClass, schemaVersion }
  distinct := by decide
  width _ := rfl
  ofRow_row _ := rfl
  row_ofRow _ := rfl
instance : Serialize EntityRegistration := ⟨Record.toValue⟩
instance : Deserialize EntityRegistration := ⟨Record.read⟩

abbrev ChangeRepr :=
  Seq × EntityName × EntityId × Op × Option Snapshot × RowVersion × SchemaVersion × Unit

instance : Record Change ChangeRepr where
  names := ["seq", "entity", "entity_id", "op", "snapshot", "row_version", "schema_version"]
  row change := (change.seq, change.entity, change.entityId, change.op, change.snapshot,
    change.rowVersion, change.schemaVersion, ())
  ofRow
    | (seq, entity, entityId, op, snapshot, rowVersion, schemaVersion, ()) =>
      { seq, entity, entityId, op, snapshot, rowVersion, schemaVersion }
  validate := Change.validate
  distinct := by decide
  width _ := rfl
  ofRow_row _ := rfl
  row_ofRow _ := rfl
instance : Deserialize Change := ⟨Record.read⟩

abbrev BatchRepr := ScopeId × List Change × Cursor × Bool × HexString × HexString × Unit

instance : Record Batch BatchRepr where
  names := ["scope", "changes", "next_cursor", "has_more", "checksum", "digest"]
  row batch := (batch.scope, batch.changes, batch.nextCursor, batch.hasMore, batch.checksum,
    batch.digest, ())
  ofRow
    | (scope, changes, nextCursor, hasMore, checksum, digest, ()) =>
      { scope, changes, nextCursor, hasMore, checksum, digest }
  validate := Batch.validateOrdering
  distinct := by decide
  width _ := rfl
  ofRow_row _ := rfl
  row_ofRow _ := rfl
instance : Serialize Batch := ⟨Record.toValue⟩
instance : Deserialize Batch := ⟨Record.read⟩

instance : Record ScopeCursor (ScopeId × Cursor × Unit) where
  names := ["scope", "cursor"]
  row value := (value.scope, value.cursor, ())
  ofRow
    | (scope, cursor, ()) => { scope, cursor }
  distinct := by decide
  width _ := rfl
  ofRow_row _ := rfl
  row_ofRow _ := rfl
instance : Serialize ScopeCursor := ⟨Record.toValue⟩
instance : Deserialize ScopeCursor := ⟨Record.read⟩

abbrev PullRequestRepr :=
  ProtocolVersion × Bounded ScopeCursor Limits.scopesMaxCount × Option LimitBytes × Unit

instance : Record Wire.PullRequest PullRequestRepr where
  names := ["protocol", "scopes", "limit_bytes"]
  row request := (request.protocol, ⟨request.scopes⟩, request.limitBytes, ())
  ofRow
    | (protocol, scopes, limitBytes, ()) => { protocol, scopes := scopes.items, limitBytes }
  validate := Wire.PullRequest.validate
  distinct := by decide
  width _ := rfl
  ofRow_row _ := rfl
  row_ofRow _ := rfl
instance : Serialize Wire.PullRequest := ⟨Record.toValue⟩
instance : Deserialize Wire.PullRequest := ⟨Record.read⟩

instance : Record Wire.PullResponse (ProtocolVersion × List Batch × Unit) where
  names := ["protocol", "batches"]
  row response := (response.protocol, response.batches, ())
  ofRow
    | (protocol, batches, ()) => { protocol, batches }
  distinct := by decide
  width _ := rfl
  ofRow_row _ := rfl
  row_ofRow _ := rfl
instance : Serialize Wire.PullResponse := ⟨Record.toValue⟩
instance : Deserialize Wire.PullResponse := ⟨Record.read⟩

instance : Record BootstrapRequest (ProtocolVersion × ScopeId × Cursor × Unit) where
  names := ["protocol", "scope", "after"]
  row request := (request.protocol, request.scope, request.after, ())
  ofRow
    | (protocol, scope, after, ()) => { protocol, scope, after }
  distinct := by decide
  width _ := rfl
  ofRow_row _ := rfl
  row_ofRow _ := rfl
instance : Serialize BootstrapRequest := ⟨Record.toValue⟩
instance : Deserialize BootstrapRequest := ⟨Record.read⟩

instance : Record BootstrapResponse
    (ProtocolVersion × ScopeId × List Change × Cursor × Bool × HexString × HexString × Unit) where
  names := ["protocol", "scope", "changes", "next_cursor", "has_more", "checksum", "digest"]
  row response := (response.protocol, response.scope, response.changes, response.nextCursor,
    response.hasMore, response.checksum, response.digest, ())
  ofRow
    | (protocol, scope, changes, nextCursor, hasMore, checksum, digest, ()) =>
      { protocol, scope, changes, nextCursor, hasMore, checksum, digest }
  distinct := by decide
  width _ := rfl
  ofRow_row _ := rfl
  row_ofRow _ := rfl
instance : Serialize BootstrapResponse := ⟨Record.toValue⟩
instance : Deserialize BootstrapResponse := ⟨Record.read⟩

instance : Record Command
    (CommandId × CommandName × ScopeId × Payload × Int64 × HexString × Unit) where
  names := ["id", "name", "scope", "payload", "client_ts", "checksum"]
  row command := (command.id, command.name, command.scope, command.payload, command.clientTs,
    command.checksum, ())
  ofRow
    | (id, name, scope, payload, clientTs, checksum, ()) =>
      { id, name, scope, payload, clientTs, checksum }
  distinct := by decide
  width _ := rfl
  ofRow_row _ := rfl
  row_ofRow _ := rfl
instance : Deserialize Command := ⟨Record.read⟩

abbrev PushRequestRepr := ProtocolVersion × Bounded Command Limits.commandsMaxCount × Unit

instance : Record PushRequest PushRequestRepr where
  names := ["protocol", "commands"]
  row request := (request.protocol, ⟨request.commands⟩, ())
  ofRow
    | (protocol, commands, ()) => { protocol, commands := commands.items }
  validate := PushRequest.validate
  distinct := by decide
  width _ := rfl
  ofRow_row _ := rfl
  row_ofRow _ := rfl
instance : Serialize PushRequest := ⟨Record.toValue⟩
instance : Deserialize PushRequest := ⟨Record.read⟩

abbrev CommandResultRepr := CommandId × Status × Option Reason × Option Seq × Unit

instance : Record CommandResult CommandResultRepr where
  names := ["id", "status", "reason", "server_seq"]
  row result := (result.id, result.status, result.reason, result.serverSeq, ())
  ofRow
    | (id, status, reason, serverSeq, ()) => { id, status, reason, serverSeq }
  validate := CommandResult.validate
  distinct := by decide
  width _ := rfl
  ofRow_row _ := rfl
  row_ofRow _ := rfl
instance : Serialize CommandResult := ⟨Record.toValue⟩
instance : Deserialize CommandResult := ⟨Record.read⟩

instance : Record PushResponse (ProtocolVersion × List CommandResult × Unit) where
  names := ["protocol", "results"]
  row response := (response.protocol, response.results, ())
  ofRow
    | (protocol, results, ()) => { protocol, results }
  distinct := by decide
  width _ := rfl
  ofRow_row _ := rfl
  row_ofRow _ := rfl
instance : Serialize PushResponse := ⟨Record.toValue⟩
instance : Deserialize PushResponse := ⟨Record.read⟩

instance : Record ForcedUpgrade (ProtocolVersion × ProtocolVersion × Reason × Unit) where
  names := ["min_protocol", "current_protocol", "reason"]
  row upgrade := (upgrade.minProtocol, upgrade.currentProtocol, upgrade.reason, ())
  ofRow
    | (minProtocol, currentProtocol, reason, ()) => { minProtocol, currentProtocol, reason }
  distinct := by decide
  width _ := rfl
  ofRow_row _ := rfl
  row_ofRow _ := rfl
instance : Serialize ForcedUpgrade := ⟨Record.toValue⟩
instance : Deserialize ForcedUpgrade := ⟨Record.read⟩

end CredSync
