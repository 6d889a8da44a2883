import CredSync.Protocol.Records

/-! Every wire type keeps the laws of its parts. What is decoded is valid and decodes again
to itself. What is valid is decoded again as long as its documents, with the envelope
around them, nest no deeper than the parser follows; a document is never asked. -/

namespace CredSync

open Checked (Valid)

/-! ## The rules of each type

A struct without a rule of its own is valid when its fields are. -/

theorem Command.toValue_eq (command : Command) :
    Serialize.toValue command = Record.toValue command := by
  apply congrArg Value.object
  simp (disch := decide) only [Record.names, Record.row, Columns.write, Value.present,
    List.zip_cons_cons, List.zip_nil_left, List.filterMap_cons, List.filterMap_nil,
    Option.map_some, SortedMap.ofList, List.foldl_cons, List.foldl_nil, SortedMap.insert_nil,
    SortedMap.insert_before, SortedMap.insert_after]

theorem Change.toValue_eq (change : Change) :
    Serialize.toValue change = Record.toValue change := by
  apply congrArg Value.object
  obtain ⟨seq, entity, entityId, op, snapshot, rowVersion, schemaVersion⟩ := change
  cases snapshot with
  | none =>
    simp (disch := decide) only [Record.names, Record.row, Columns.write, Value.present,
      List.zip_cons_cons, List.zip_nil_left, List.filterMap_cons, List.filterMap_nil,
      Option.map_some, Option.map_none, SortedMap.ofList, List.foldl_cons, List.foldl_nil,
      SortedMap.insert_nil, SortedMap.insert_before, SortedMap.insert_after, List.append_nil]
  | some snapshot =>
    simp (disch := decide) only [Record.names, Record.row, Columns.write, Value.present,
      List.zip_cons_cons, List.zip_nil_left, List.filterMap_cons, List.filterMap_nil,
      Option.map_some, SortedMap.ofList, List.foldl_cons, List.foldl_nil, SortedMap.insert_nil,
      SortedMap.insert_before, SortedMap.insert_after, List.cons_append, List.nil_append]

/-- An upsert has a snapshot, and nothing else has one. -/
instance : Checked Change :=
  ⟨fun change => Valid (Record.row change) ∧ (change.op = .upsert ↔ change.snapshot.isSome)⟩

theorem Change.validate_ok_iff {change : Change} :
    change.validate = .ok () ↔ (change.op = .upsert ↔ change.snapshot.isSome) := by
  obtain ⟨seq, entity, entityId, op, snapshot, rowVersion, schemaVersion⟩ := change
  cases op <;> cases snapshot <;> simp [Change.validate]

instance : Lawful Change := Record.lawful Change.toValue_eq (fun _ _ => rfl) fun _ =>
  and_congr_right' Change.validate_ok_iff.symm

/-- Changes ascend strictly. -/
instance : Checked Batch :=
  ⟨fun batch => Valid (Record.row batch) ∧
    batch.changes.Pairwise fun first second => first.seq.get < second.seq.get⟩

instance : Lawful Batch := Record.lawful (fun _ => rfl) (fun _ _ => rfl) fun _ =>
  and_congr_right' Batch.validateOrdering_ok_iff.symm

/-- A rejection carries a reason. -/
instance : Checked CommandResult :=
  ⟨fun result => Valid (Record.row result) ∧ (result.status = .rejected → result.reason ≠ none)⟩

theorem CommandResult.validate_ok_iff {result : CommandResult} :
    result.validate = .ok () ↔ (result.status = .rejected → result.reason ≠ none) := by
  unfold CommandResult.validate
  split
  case isTrue silent => simp [silent]
  case isFalse explained => simpa using explained

instance : Lawful CommandResult := Record.lawful (fun _ => rfl) (fun _ _ => rfl) fun _ =>
  and_congr_right' CommandResult.validate_ok_iff.symm

instance : Checked Command := ⟨fun command => Valid (Record.row command)⟩
instance : Lawful Command := Record.lawful Command.toValue_eq (fun _ _ => rfl) fun _ =>
  (and_iff_left rfl).symm

/-- The parts of a command carry their own rules, down to the map a payload is. -/
theorem Command.valid {command : Command} (mapped : command.payload.value.Mapped) :
    Valid command := by
  obtain ⟨object, floatless, short⟩ := Document.check_ok command.payload.valid
  exact ⟨command.id.fromBytes_bytes, checked_ok_iff.mp command.name.valid,
    checked_ok_iff.mp command.scope.valid, ⟨object, floatless, short, mapped⟩, trivial,
    ⟨command.checksum.width, command.checksum.admitted⟩, trivial⟩

/-- At most 256 commands in at most a megabyte. -/
instance : Checked PushRequest :=
  ⟨fun request => Valid request.protocol ∧ Valid request.commands ∧
    request.commands.length ≤ Limits.commandsMaxCount ∧
    (Canonical.toVec request.commands).length ≤ Limits.commandsMaxTotalBytes⟩

theorem PushRequest.validate_ok_iff {request : PushRequest} :
    request.validate = .ok () ↔ request.commands.length ≤ Limits.commandsMaxCount ∧
      (Canonical.toVec request.commands).length ≤ Limits.commandsMaxTotalBytes := by
  unfold PushRequest.validate
  split
  case isTrue many => simp [Nat.not_le.mpr many]
  case isFalse few =>
    split
    case isTrue large => simp [Nat.not_le.mpr large]
    case isFalse small => simp [Nat.le_of_not_lt few, Nat.le_of_not_lt small]

instance : Lawful PushRequest := Record.lawful (fun _ => rfl) (fun _ _ => rfl) fun request => by
  rw [show Record.validate request = .ok () ↔ _ from PushRequest.validate_ok_iff]
  constructor
  · intro ⟨protocol, commands, few, small⟩
    exact ⟨⟨protocol, ⟨commands, few⟩, trivial⟩, few, small⟩
  · intro ⟨⟨protocol, ⟨commands, _⟩, _⟩, few, small⟩
    exact ⟨protocol, commands, few, small⟩

instance : Checked ScopeCursor := ⟨fun value => Valid (Record.row value)⟩
instance : Lawful ScopeCursor := Record.lawful (fun _ => rfl) (fun _ _ => rfl) fun _ =>
  (and_iff_left rfl).symm

/-- At most 64 scopes. -/
instance : Checked Wire.PullRequest :=
  ⟨fun request => Valid request.protocol ∧ Valid request.scopes ∧
    (∀ limit, request.limitBytes = some limit → Valid limit) ∧
    request.scopes.length ≤ Limits.scopesMaxCount⟩

theorem Wire.PullRequest.validate_ok_iff {request : Wire.PullRequest} :
    request.validate = .ok () ↔ request.scopes.length ≤ Limits.scopesMaxCount := by
  unfold Wire.PullRequest.validate
  split
  case isTrue many => simp [Nat.not_le.mpr many]
  case isFalse few => simp [Nat.le_of_not_lt few]

instance : Lawful Wire.PullRequest := Record.lawful (fun _ => rfl) (fun _ _ => rfl) fun request => by
  rw [show Record.validate request = .ok () ↔ _ from Wire.PullRequest.validate_ok_iff]
  constructor
  · intro ⟨protocol, scopes, limit, few⟩
    exact ⟨⟨protocol, ⟨scopes, few⟩, limit, trivial⟩, few⟩
  · intro ⟨⟨protocol, ⟨scopes, _⟩, limit, _⟩, few⟩
    exact ⟨protocol, scopes, limit, few⟩

instance : Checked EntityRegistration := ⟨fun value => Valid (Record.row value)⟩
instance : Lawful EntityRegistration := Record.lawful (fun _ => rfl) (fun _ _ => rfl) fun _ =>
  (and_iff_left rfl).symm

instance : Checked Wire.PullResponse := ⟨fun response => Valid (Record.row response)⟩
instance : Lawful Wire.PullResponse := Record.lawful (fun _ => rfl) (fun _ _ => rfl) fun _ =>
  (and_iff_left rfl).symm

instance : Checked BootstrapRequest := ⟨fun request => Valid (Record.row request)⟩
instance : Lawful BootstrapRequest := Record.lawful (fun _ => rfl) (fun _ _ => rfl) fun _ =>
  (and_iff_left rfl).symm

instance : Checked BootstrapResponse := ⟨fun response => Valid (Record.row response)⟩
instance : Lawful BootstrapResponse := Record.lawful (fun _ => rfl) (fun _ _ => rfl) fun _ =>
  (and_iff_left rfl).symm

instance : Checked PushResponse := ⟨fun response => Valid (Record.row response)⟩
instance : Lawful PushResponse := Record.lawful (fun _ => rfl) (fun _ _ => rfl) fun _ =>
  (and_iff_left rfl).symm

instance : Checked ForcedUpgrade := ⟨fun upgrade => Valid (Record.row upgrade)⟩
instance : Lawful ForcedUpgrade := Record.lawful (fun _ => rfl) (fun _ _ => rfl) fun _ =>
  (and_iff_left rfl).symm

/-! ## How deep a value nests

Only host documents nest without bound. Each level of the envelope around one leaves it a
level less. -/

/-- A type written without any array or object. -/
class Flat (α : Type) [Serialize α] : Prop where
  depth_zero : ∀ a : α, (Serialize.toValue a).depth = 0

instance : Flat Bool := ⟨fun _ => rfl⟩
instance {field : String} {min max : Nat} : Flat (BoundedNum field min max) := ⟨fun _ => rfl⟩
instance {field expected : String} {max : Nat} {ok : UInt8 → Bool} :
    Flat (BoundedString field expected max ok) := ⟨fun _ => rfl⟩
instance : Flat HexString := ⟨fun _ => rfl⟩
instance : Flat Reason := ⟨fun _ => rfl⟩
instance : Flat CommandId := ⟨fun _ => rfl⟩
instance : Flat Op := ⟨fun op => by cases op <;> rfl⟩
instance : Flat Status := ⟨fun status => by cases status <;> rfl⟩
instance : Flat ConflictClass := ⟨fun conflictClass => by cases conflictClass <;> rfl⟩
instance : Flat Int64 where
  depth_zero n := by
    obtain ⟨number, written, _⟩ := Int64.toValue_number n
    rw [written]
    rfl

theorem Flat.depth_le {α : Type} [Serialize α] [Flat α] (a : α) (room : Nat) :
    (Serialize.toValue a).depth ≤ room := (Flat.depth_zero a).symm ▸ Nat.zero_le room

/-- Columns of such types. -/
class FlatColumns (ρ : Type) [Columns ρ] : Prop where
  all_flat : ∀ (row : ρ) (room : Nat), Columns.All (·.depth ≤ room) row

section FlatColumns

variable {α ρ : Type} [Serialize α] [Deserialize α] [Flat α] [Columns ρ] [FlatColumns ρ]

instance : FlatColumns Unit := ⟨fun _ _ => Columns.all_unit⟩
instance : FlatColumns (α × ρ) := ⟨fun row room =>
  Columns.all_field.mpr ⟨Flat.depth_le row.1 room, FlatColumns.all_flat row.2 room⟩⟩
instance : FlatColumns (Option α × ρ) := ⟨fun row room =>
  Columns.all_default.mpr ⟨fun a _ => Flat.depth_le a room, FlatColumns.all_flat row.2 room⟩⟩

theorem Record.flat_depth_le {σ : Type} [Record σ ρ] (value : σ) (room : Nat) :
    (Record.toValue value).depth ≤ room + 1 :=
  Record.depth_toValue_le.mpr (FlatColumns.all_flat (row value) room)

end FlatColumns

theorem Command.depth_le {room : Nat} {command : Command} :
    (Serialize.toValue command).depth ≤ room + 1 ↔ command.payload.value.depth ≤ room := by
  rw [Command.toValue_eq, Record.depth_toValue_le]
  simp [Record.row, Flat.depth_le]
  rfl

theorem Change.depth_le {room : Nat} {change : Change} :
    (Serialize.toValue change).depth ≤ room + 1 ↔
      ∀ snapshot, change.snapshot = some snapshot → snapshot.value.depth ≤ room := by
  rw [Change.toValue_eq, Record.depth_toValue_le]
  simp [Record.row, Flat.depth_le]
  rfl

theorem Bounded.depth_le {α : Type} [Serialize α] {max room : Nat} {bounded : Bounded α max} :
    (Serialize.toValue bounded).depth ≤ room + 1 ↔
      ∀ item ∈ bounded.items, (Serialize.toValue item).depth ≤ room := depth_list_le

/-- The documents of a list of changes. -/
def Change.documents (changes : List Change) : List Value :=
  changes.filterMap fun change => change.snapshot.map Document.value

theorem Change.depths_le {room : Nat} {changes : List Change} :
    (∀ change ∈ changes, (Serialize.toValue change).depth ≤ room + 1) ↔
      ∀ document ∈ documents changes, document.depth ≤ room := by
  simp only [Change.depth_le, documents, List.mem_filterMap, Option.map_eq_some_iff]
  constructor
  · rintro every document ⟨change, member, snapshot, held, rfl⟩
    exact every change member snapshot held
  · intro every change member snapshot held
    exact every snapshot.value ⟨change, member, snapshot, held, rfl⟩

theorem Batch.depth_le {room : Nat} {batch : Batch} :
    (Serialize.toValue batch).depth ≤ room + 3 ↔
      ∀ document ∈ Change.documents batch.changes, document.depth ≤ room := by
  change (Record.toValue batch).depth ≤ _ ↔ _
  rw [Record.depth_toValue_le]
  simp [Record.row, Flat.depth_le, Change.depths_le]

theorem Wire.PullResponse.depth_le {room : Nat} {response : Wire.PullResponse} :
    (Serialize.toValue response).depth ≤ room + 5 ↔
      ∀ batch ∈ response.batches, ∀ document ∈ Change.documents batch.changes,
        document.depth ≤ room := by
  change (Record.toValue response).depth ≤ _ ↔ _
  rw [Record.depth_toValue_le]
  simp [Record.row, Flat.depth_le, Batch.depth_le]

theorem BootstrapResponse.depth_le {room : Nat} {response : BootstrapResponse} :
    (Serialize.toValue response).depth ≤ room + 3 ↔
      ∀ document ∈ Change.documents response.changes, document.depth ≤ room := by
  change (Record.toValue response).depth ≤ _ ↔ _
  rw [Record.depth_toValue_le]
  simp [Record.row, Flat.depth_le, Change.depths_le]

theorem PushRequest.depth_le {room : Nat} {request : PushRequest} :
    (Serialize.toValue request).depth ≤ room + 3 ↔
      ∀ command ∈ request.commands, command.payload.value.depth ≤ room := by
  change (Record.toValue request).depth ≤ _ ↔ _
  rw [Record.depth_toValue_le]
  simp [Record.row, Flat.depth_le, Bounded.depth_le, Command.depth_le]

theorem Wire.PullRequest.depth_le (request : Wire.PullRequest) (room : Nat) :
    (Serialize.toValue request).depth ≤ room + 3 := by
  apply Record.depth_toValue_le.mpr
  simp only [Record.row, Columns.all_field, Columns.all_default, Columns.all_unit, Flat.depth_le,
    Bounded.depth_le, and_true, true_and, implies_true]
  exact fun cursor _ => Record.flat_depth_le cursor room

theorem PushResponse.depth_le (response : PushResponse) (room : Nat) :
    (Serialize.toValue response).depth ≤ room + 3 := by
  apply Record.depth_toValue_le.mpr
  simp only [Record.row, Columns.all_field, Columns.all_unit, Flat.depth_le, depth_list_le,
    and_true, true_and]
  exact fun result _ => Record.flat_depth_le result room

/-! ## The wire types -/

/-- A type of the wire format with both its sides and its rules. -/
structure WireType where
  Carrier : Type
  [serialize : Serialize Carrier]
  [deserialize : Deserialize Carrier]
  [checked : Checked Carrier]
  [lawful : Lawful Carrier]

attribute [instance] WireType.serialize WireType.deserialize WireType.checked WireType.lawful

/-- The requests and responses, and everything they are made of. -/
inductive Kind where
  | protocolVersion | schemaVersion | seq | rowVersion | limitBytes | cursor
  | scopeId | entityName | entityId | commandName | reason | hexString | commandId
  | op | status | conflictClass | snapshot | payload
  | entityRegistration | change | batch | scopeCursor | command | commandResult
  | pullRequest | pullResponse | bootstrapRequest | bootstrapResponse
  | pushRequest | pushResponse | forcedUpgrade

namespace Kind

def type : Kind → WireType
  | protocolVersion => ⟨ProtocolVersion⟩
  | schemaVersion => ⟨SchemaVersion⟩
  | seq => ⟨Seq⟩
  | rowVersion => ⟨RowVersion⟩
  | limitBytes => ⟨LimitBytes⟩
  | cursor => ⟨Cursor⟩
  | scopeId => ⟨ScopeId⟩
  | entityName => ⟨EntityName⟩
  | entityId => ⟨EntityId⟩
  | commandName => ⟨CommandName⟩
  | reason => ⟨Reason⟩
  | hexString => ⟨HexString⟩
  | commandId => ⟨CommandId⟩
  | op => ⟨Op⟩
  | status => ⟨Status⟩
  | conflictClass => ⟨ConflictClass⟩
  | snapshot => ⟨Snapshot⟩
  | payload => ⟨Payload⟩
  | entityRegistration => ⟨EntityRegistration⟩
  | change => ⟨Change⟩
  | batch => ⟨Batch⟩
  | scopeCursor => ⟨ScopeCursor⟩
  | command => ⟨Command⟩
  | commandResult => ⟨CommandResult⟩
  | pullRequest => ⟨Wire.PullRequest⟩
  | pullResponse => ⟨Wire.PullResponse⟩
  | bootstrapRequest => ⟨BootstrapRequest⟩
  | bootstrapResponse => ⟨BootstrapResponse⟩
  | pushRequest => ⟨PushRequest⟩
  | pushResponse => ⟨PushResponse⟩
  | forcedUpgrade => ⟨ForcedUpgrade⟩

/-- The host documents in a value. -/
def documents : (kind : Kind) → kind.type.Carrier → List Value
  | snapshot, document => [Document.value document]
  | payload, document => [Document.value document]
  | change, value => Change.documents [value]
  | batch, value => Change.documents (Batch.changes value)
  | pullResponse, response =>
    (Wire.PullResponse.batches response).flatMap fun batch => Change.documents batch.changes
  | bootstrapResponse, response => Change.documents (BootstrapResponse.changes response)
  | command, value => [(Command.payload value).value]
  | pushRequest, request => (PushRequest.commands request).map fun command => command.payload.value
  | _, _ => []

/-- How many arrays and objects stand around each of them. -/
def envelope : Kind → Nat
  | change | command => 1
  | batch | bootstrapResponse | pushRequest => 3
  | pullResponse => 5
  | _ => 0

theorem within_iff {documents : List Value} {room envelope : Nat}
    (whole : room + envelope + 1 = Json.recursionLimit) :
    (∀ document ∈ documents, document.depth ≤ room) ↔
      ∀ document ∈ documents, document.depth + envelope < Json.recursionLimit := by
  constructor
  · intro every document member
    have fits := every document member
    omega
  · intro every document member
    have fits := every document member
    omega

/-- A value stays within the parser's limit when its documents do, with what is around them. -/
theorem fits_iff (kind : Kind) (value : kind.type.Carrier) :
    (Serialize.toValue value).depth < Json.recursionLimit ↔
      ∀ document ∈ kind.documents value, document.depth + kind.envelope < Json.recursionLimit := by
  -- A value that holds no document is always shallow.
  have shallow : ∀ {depth room : Nat}, depth ≤ room → room < Json.recursionLimit →
      (depth < Json.recursionLimit ↔
        ∀ document ∈ ([] : List Value), document.depth + 0 < Json.recursionLimit) :=
    fun fits small => iff_of_true (Nat.lt_of_le_of_lt fits small) (List.forall_mem_nil _)
  cases kind with
  | protocolVersion | schemaVersion | seq | rowVersion | limitBytes | cursor | scopeId | entityName
  | entityId | commandName | reason | hexString | commandId =>
    exact shallow (Nat.le_refl 0) (by decide)
  | op | status | conflictClass => cases value <;> exact shallow (Nat.le_refl 0) (by decide)
  | scopeCursor => exact shallow (@Record.flat_depth_le _ _ _ ScopeCursor _ value 0) (by decide)
  | commandResult => exact shallow (@Record.flat_depth_le _ _ _ CommandResult _ value 0) (by decide)
  | entityRegistration => exact shallow (@Record.flat_depth_le _ _ _ EntityRegistration _ value 0) (by decide)
  | bootstrapRequest => exact shallow (@Record.flat_depth_le _ _ _ BootstrapRequest _ value 0) (by decide)
  | forcedUpgrade => exact shallow (@Record.flat_depth_le _ _ _ ForcedUpgrade _ value 0) (by decide)
  | pullRequest => exact shallow (Wire.PullRequest.depth_le value 0) (by decide)
  | pushResponse => exact shallow (PushResponse.depth_le value 0) (by decide)
  | snapshot | payload =>
    have alone : (Serialize.toValue value).depth ≤ 127 ↔
        ∀ document ∈ [Document.value value], document.depth ≤ 127 := by
      rw [List.forall_mem_singleton]
      rfl
    exact (Nat.lt_succ_iff.trans alone).trans (within_iff rfl)
  | change =>
    have alone := List.forall_mem_singleton.symm.trans (@Change.depths_le 126 [value])
    exact (Nat.lt_succ_iff.trans alone).trans (within_iff rfl)
  | command =>
    have alone : (Serialize.toValue value).depth ≤ 126 + 1 ↔
        ∀ document ∈ [(Command.payload value).value], document.depth ≤ 126 := by
      rw [List.forall_mem_singleton]
      exact Command.depth_le
    exact (Nat.lt_succ_iff.trans alone).trans (within_iff rfl)
  | batch => exact (Nat.lt_succ_iff.trans Batch.depth_le).trans (within_iff rfl)
  | bootstrapResponse =>
    exact (Nat.lt_succ_iff.trans BootstrapResponse.depth_le).trans (within_iff rfl)
  | pushRequest =>
    have each : (Serialize.toValue value).depth ≤ 124 + 3 ↔
        ∀ document ∈ pushRequest.documents value, document.depth ≤ 124 := by
      simp only [documents, List.forall_mem_map]
      exact PushRequest.depth_le
    exact (Nat.lt_succ_iff.trans each).trans (within_iff rfl)
  | pullResponse =>
    have each : (Serialize.toValue value).depth ≤ 122 + 5 ↔
        ∀ document ∈ pullResponse.documents value, document.depth ≤ 122 := by
      simp only [documents, List.forall_mem_flatMap]
      exact Wire.PullResponse.depth_le
    exact (Nat.lt_succ_iff.trans each).trans (within_iff rfl)

end Kind

/-! ## Both ways -/

/-- Parsing undoes printing, as `serde_json` does for a value without floats that stays
within its limit. -/
def Canonical.Undone (parse : Bytes → Option Json) (v : Value) : Prop :=
  hasFloat v = false → v.depth < Json.recursionLimit → parse (print v) = some (.ofValue v)

section Lawful

variable {α : Type} [Serialize α] [Deserialize α] [Checked α] [Lawful α]
variable {parse : Bytes → Option Json} {bytes : Bytes} {a : α}

theorem Lawful.fromSlice_sound (accepted : Canonical.fromSlice parse bytes = some a) :
    Valid a ∧ (Serialize.toValue a).depth < Json.recursionLimit := by
  obtain ⟨json, _, read⟩ := Option.bind_eq_some_iff.mp accepted
  obtain ⟨valid, fits⟩ := Lawful.sound read
  exact ⟨valid, Nat.lt_succ_of_le fits⟩

theorem Lawful.fromSlice_toVec (valid : Valid a)
    (undone : Canonical.Undone parse (Serialize.toValue a)) :
    Canonical.fromSlice parse (Canonical.toVec a) = some a ↔
      (Serialize.toValue a).depth < Json.recursionLimit := by
  constructor
  · exact fun accepted => (Lawful.fromSlice_sound accepted).2
  · intro fits
    rw [Canonical.fromSlice, Canonical.toVec, undone (Lawful.floatless a) fits, Option.bind_some]
    exact Lawful.reads valid (Nat.le_of_lt_succ fits)

end Lawful

/-- A valid value is received as it was sent exactly when its documents, with what stands
around them, stay within the parser's limit. -/
theorem sent_is_received (parse : Bytes → Option Json) (kind : Kind) (value : kind.type.Carrier)
    (valid : Valid value) (undone : Canonical.Undone parse (Serialize.toValue value)) :
    Canonical.fromSlice parse (Canonical.toVec value) = some value ↔
      ∀ document ∈ kind.documents value,
        document.depth + kind.envelope < Json.recursionLimit :=
  (Lawful.fromSlice_toVec valid undone).trans (kind.fits_iff value)

namespace Sample

/-- So many objects inside one another, and an empty one. -/
def nested : Nat → Value
  | 0 => .object []
  | n + 1 => .object [("a", nested n)]

theorem nested_depth (n : Nat) : (nested n).depth = n + 1 := by
  induction n with
  | zero => rfl
  | succ n ih => simp [nested, Value.depth, Value.depthFields, ih]

theorem nested_mapped (n : Nat) : (nested n).Mapped := by
  induction n with
  | zero => exact ⟨.nil, trivial⟩
  | succ n ih => exact ⟨List.pairwise_singleton _ _, ih, trivial⟩

theorem nested_floatless (n : Nat) : Canonical.hasFloat (nested n) = false := by
  induction n with
  | zero => rfl
  | succ n ih => simp [nested, Canonical.hasFloat, Canonical.anyFieldFloat, ih]

theorem nested_length (n : Nat) : (Canonical.print (nested n)).length = 6 * n + 2 := by
  have key : (Canonical.quote "a").length = 3 := by decide
  induction n with
  | zero => rfl
  | succ n ih =>
    simp only [nested, Canonical.print, Canonical.printFields, Canonical.joinComma,
      List.length_append, List.length_cons, List.length_nil, key, ih]
    omega

theorem nested_check {n : Nat} (small : n ≤ 1000) :
    Document.check Limits.payloadMaxBytes "payload" (nested n) = .ok () := by
  have object : (nested n).isObject = true := by cases n <;> rfl
  have short : ¬ Limits.payloadMaxBytes < (Canonical.print (nested n)).length := by
    rw [nested_length, Limits.payloadMaxBytes]
    omega
  simp [Document.check, object, nested_floatless, short]

/-- A push of one command with so deep a payload. -/
def nestedPush (n : Nat) (small : n ≤ 1000) : PushRequest where
  protocol := 1
  commands := [{
    id := firstCommand
    name := ⟨ascii "rename_note", by decide⟩
    scope := scope
    payload := ⟨nested n, nested_check small⟩
    clientTs := 0
    checksum := hexU128 0 }]

theorem nestedPush_valid (n : Nat) (small : n ≤ 1000) : Valid (nestedPush n small) := by
  refine ⟨⟨(nestedPush n small).protocol.lower, (nestedPush n small).protocol.upper⟩, ?_,
    (by decide : 1 ≤ Limits.commandsMaxCount), Command.length_toVec _⟩
  intro command member
  cases List.mem_singleton.mp member
  exact Command.valid (nested_mapped n)

/-- A parser that knows the text of one value. -/
def parserOf (v : Value) (bytes : Bytes) : Option Json :=
  if bytes = Canonical.print v then some (.ofValue v) else none

theorem parserOf_undone (v : Value) : Canonical.Undone (parserOf v) v := fun _ _ => if_pos rfl

/-- A payload nested 124 deep arrives, with the three levels around it. -/
theorem nestedPush_received :
    Canonical.fromSlice (parserOf (Serialize.toValue (nestedPush 123 (by decide))))
      (Canonical.toVec (nestedPush 123 (by decide))) = some (nestedPush 123 (by decide)) := by
  apply (sent_is_received _ .pushRequest (nestedPush 123 (by decide)) (nestedPush_valid 123 _)
    (parserOf_undone _)).mpr
  intro document member
  cases List.mem_singleton.mp member
  exact Nat.add_lt_of_lt_sub ((nested_depth 123).symm ▸ by decide)

/-- One level more, and the push that its sender could build is refused, though its payload
alone is not. -/
theorem nestedPush_refused :
    Valid (nestedPush 124 (by decide)) ∧
      Canonical.Undone (parserOf (Serialize.toValue (nestedPush 124 (by decide))))
        (Serialize.toValue (nestedPush 124 (by decide))) ∧
      Canonical.fromSlice (parserOf (Serialize.toValue (nestedPush 124 (by decide))))
        (Canonical.toVec (nestedPush 124 (by decide))) = (none : Option PushRequest) ∧
      ∀ command ∈ (nestedPush 124 (by decide)).commands,
        Canonical.fromSlice (parserOf command.payload.value) (Canonical.toVec command.payload) =
          some command.payload := by
  have valid := nestedPush_valid 124 (by decide)
  refine ⟨valid, parserOf_undone _, ?_, ?_⟩
  · have parsed : parserOf (Serialize.toValue (nestedPush 124 (by decide)))
        (Canonical.toVec (nestedPush 124 (by decide))) =
          some (.ofValue (Serialize.toValue (nestedPush 124 (by decide)))) := if_pos rfl
    apply Option.isNone_iff_eq_none.mp
    rw [Canonical.fromSlice, parsed, Option.bind_some]
    decide +kernel
  · intro command member
    cases List.mem_singleton.mp member
    obtain ⟨_, _, _, payload, _⟩ := valid.2.1 _ List.mem_cons_self
    apply (Lawful.fromSlice_toVec payload (parserOf_undone _)).mpr
    exact (nested_depth 124).symm ▸ (by decide)

end Sample

/-- What is decoded keeps every rule of its type, and is decoded again from what it is
encoded as, to a value of the same encoding. -/
theorem decoded_is_stable (parse : Bytes → Option Json) (kind : Kind) (bytes : Bytes)
    (value : kind.type.Carrier) (accepted : Canonical.fromSlice parse bytes = some value)
    (undone : Canonical.Undone parse (Serialize.toValue value)) :
    Valid value ∧ ∃ again : kind.type.Carrier,
      Canonical.fromSlice parse (Canonical.toVec value) = some again ∧ again = value ∧
        Canonical.toVec again = Canonical.toVec value := by
  obtain ⟨valid, fits⟩ := Lawful.fromSlice_sound accepted
  exact ⟨valid, value, (Lawful.fromSlice_toVec valid undone).mpr fits, rfl, rfl⟩

namespace Sample

/-- The start of a scope. -/
def fromStart : ScopeCursor := ⟨scope, .start⟩

/-- The same with its fields the other way around, and one that nobody knows. -/
def fromStartText : Bytes := ascii "\x7b \"scope\": \"s\", \"hint\": [1], \"cursor\": 0 \x7d"

/-- A parser that knows both texts. -/
def parseFromStart (bytes : Bytes) : Option Json :=
  if bytes = fromStartText then
    some (.object [("scope", .string "s"), ("hint", .array [.number (.posInt 1)]),
      ("cursor", .number (.posInt 0))])
  else parserOf (Serialize.toValue fromStart) bytes

theorem fromStart_stable : Valid fromStart ∧ ∃ again : ScopeCursor,
    Canonical.fromSlice parseFromStart (Canonical.toVec fromStart) = some again ∧
      again = fromStart ∧ Canonical.toVec again = Canonical.toVec fromStart := by
  apply decoded_is_stable parseFromStart .scopeCursor fromStartText fromStart
  · change (Canonical.fromSlice parseFromStart fromStartText : Option ScopeCursor) = some fromStart
    decide
  · intro _ _
    have other : Canonical.print (Serialize.toValue fromStart) ≠ fromStartText := by decide
    exact (if_neg other).trans (if_pos rfl)

end Sample

end CredSync
