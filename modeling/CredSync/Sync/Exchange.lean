import CredSync.Core.OutboxLedger
import CredSync.Server.Dedupe

/-! One client pushing commands to one server. Every command ever pushed and every
result ever computed stays in flight, so either may be lost, late or repeated; two
forwards of one command may overlap; and the client may restart into another version
of its app at any time. -/

namespace CredSync

/-- The command a push carries for a queued entry. -/
def OutboxEntry.pushedAs (registry : Registry) (migrations : Migrations) (entry : OutboxEntry) :
    Except MigrationError Command :=
  (migratedCommand registry migrations entry).map (·.getD entry.command)

theorem OutboxEntry.pushedAs_id {registry : Registry} {migrations : Migrations}
    {entry : OutboxEntry} {command : Command}
    (pushed : entry.pushedAs registry migrations = .ok command) :
    command.id = entry.id := by
  unfold pushedAs migratedCommand at pushed
  split at pushed
  · cases pushed
    rfl
  · split at pushed
    · cases pushed
      rfl
    · split at pushed
      · cases pushed
        rfl
      · split at pushed
        · cases pushed
        · split at pushed
          · cases pushed
          · cases pushed
            rfl

/-- A push carries queued entries and nothing else. -/
theorem fillPush_chosen (registry : Registry) (migrations : Migrations)
    (compressedLen : Bytes → Nat) (budgetBytes : Nat) (entries : List OutboxEntry) (fill : PushFill) :
    ∀ command ∈ (fillPush registry migrations compressedLen budgetBytes entries fill).chosen,
      command ∈ fill.chosen ∨
        ∃ entry ∈ entries, entry.pushedAs registry migrations = .ok command := by
  induction entries generalizing fill with
  | nil => exact fun command member => .inl member
  | cons entry rest ih =>
    have later : ∀ command, (∃ other ∈ rest, other.pushedAs registry migrations = .ok command) →
        ∃ other ∈ entry :: rest, other.pushedAs registry migrations = .ok command :=
      fun _ ⟨other, member, pushed⟩ => ⟨other, List.mem_cons_of_mem _ member, pushed⟩
    intro command member
    unfold fillPush at member
    split at member
    · exact .inl member
    · split at member
      · exact (ih _ command member).imp_right (later command)
      · rename_i migrated ready
        simp only at member
        split at member
        · exact .inl member
        · rcases ih _ command member with chosen | other
          · rcases List.mem_append.mp chosen with chosen | last
            · exact .inl chosen
            · refine .inr ⟨entry, List.mem_cons_self, ?_⟩
              rw [List.mem_singleton.mp last, OutboxEntry.pushedAs, ready]
              rfl
          · exact .inr (later command other)

/-- The commands a call asks to be sent. -/
def ClientCall.requests (device : Device) (faults : Faults) : ClientCall → List Command
  | .buildPush compressedLen protocol budgetBytes =>
    match (device.buildPush faults compressedLen protocol budgetBytes).1 with
    | .ok (some request) => request.commands
    | _ => []
  | _ => []

/-- What is sent is stored in the outbox, as this app's version would push it. -/
theorem ClientCall.requests_queued {device : Device} (queues : device.Queues) (faults : Faults)
    (call : ClientCall) : ∀ command ∈ call.requests device faults, ∃ entry ∈ device.db.outbox,
      entry.pushedAs device.engine.registry device.engine.migrations = .ok command := by
  intro command member
  cases call with
  | buildPush compressedLen protocol budgetBytes =>
    simp only [requests] at member
    split at member
    · rename_i request asked
      rw [Device.buildPush_request queues asked] at member
      exact (fillPush_chosen _ _ _ _ _ _ command member).resolve_left
        fun impossible => nomatch impossible
    · cases member
  | _ => cases member

structure Exchange where
  device : Device
  pushed : List Command := []
  asked : List Command := []
  table : ResultTable := ∅
  answers : List CommandResult := []

namespace Exchange

/-- The host's calls and restarts on the client; and on the server the two halves
of `forward`, before and after its own host has been asked. -/
inductive Event where
  | call (faults : Faults) (call : ClientCall)
  | answer (faults : Faults) (protocol : ProtocolVersion) (indexes : List Nat)
  | restart (registry : Registry) (migrations : Migrations) (scopes : List ScopeId)
  | receive (index : Nat)
  | conclude (index : Nat) (outcome : Except HostError HostOutcome)

/-- A client that never synced, and a server that was never asked. -/
def start (registry : Registry) (migrations : Migrations) (scopes : List ScopeId) : Exchange where
  device := Device.restart registry migrations scopes {}

section Steps

variable [Hashing]

/-- The state after the results of a push, if any, were computed. -/
def forwarded (exchange : Exchange) (table : ResultTable) :
    Except ServerError Forwarded → Exchange
  | .ok answer => { exchange with
      table := table
      answers := exchange.answers ++ answer.result.toList }
  | .error _ => { exchange with table := table }

/-- Results come from the server alone, and a response may hold any of them. -/
def next (exchange : Exchange) : Event → Option Exchange
  | .call _ (.applyResults _) => none
  | .call faults call => some { exchange with
      device := exchange.device.call faults call
      pushed := exchange.pushed ++ call.requests exchange.device faults }
  | .answer faults protocol indexes =>
    some { exchange with
      device := exchange.device.call faults
        (.applyResults ⟨protocol, indexes.filterMap (exchange.answers[·]?)⟩) }
  | .restart registry migrations scopes => some { exchange with
      device := Device.restart registry migrations scopes exchange.device.db }
  | .receive index => exchange.pushed[index]?.map fun command =>
    match Dedupe.classify exchange.table command with
    | .error e => exchange.forwarded exchange.table (.error e)
    | .ok decision =>
      match forwardKnown command decision with
      | some answer => exchange.forwarded exchange.table (.ok answer)
      | none => { exchange with asked := exchange.asked ++ [command] }
  | .conclude index outcome => exchange.asked[index]?.map fun command =>
    exchange.forwarded (forwardFresh exchange.table command outcome).2
      (forwardFresh exchange.table command outcome).1

/-- No command is queued under an id that was used before. -/
def Unused (exchange : Exchange) : Event → Prop
  | .call _ (.enqueue entry) => entry.id ∉ exchange.device.db.enqueued
  | _ => True

def Step (before : Exchange) (event : Event) (after : Exchange) : Prop :=
  before.Unused event ∧ before.next event = some after

/-- A restart into an app that pushes what was pushed before with the same payload. -/
def KeepsPayloads (exchange : Exchange) : Event → Prop
  | .restart registry migrations _ => ∀ entry ∈ exchange.device.db.outbox,
      ∀ earlier ∈ exchange.pushed, earlier.id = entry.id →
        ∀ command ∈ (entry.pushedAs registry migrations).toOption,
          payloadChecksum command.payload = payloadChecksum earlier.payload
  | _ => True

/-- The steps of a run whose upgrades leave pushed payloads as they were. -/
def PayloadStep : Exchange → Event → Exchange → Prop :=
  Transition.Guarded Step KeepsPayloads

instance (exchange : Exchange) : DecidablePred exchange.Unused
  | .call _ (.enqueue entry) => inferInstanceAs (Decidable (entry.id ∉ exchange.device.db.enqueued))
  | .call _ (.applyBatch _) | .call _ (.applyBootstrap _) | .call _ (.beginRebootstrap _)
  | .call _ (.reloadScope _) | .call _ (.clearScopeHealth _) | .call _ (.buildPush ..)
  | .call _ (.applyResults _) | .answer .. | .restart .. | .receive _ | .conclude .. => isTrue trivial

instance (exchange : Exchange) : DecidablePred exchange.KeepsPayloads
  | .restart registry migrations _ => inferInstanceAs (Decidable (∀ entry ∈ exchange.device.db.outbox,
      ∀ earlier ∈ exchange.pushed, earlier.id = entry.id →
        ∀ command ∈ (entry.pushedAs registry migrations).toOption,
          payloadChecksum command.payload = payloadChecksum earlier.payload))
  | .call .. | .answer .. | .receive _ | .conclude .. => isTrue trivial

/-- What holds while a command id stands for one payload: each is recorded with what
was pushed, every answer is what was recorded, and so is every resolution. -/
structure Agrees (exchange : Exchange) : Prop where
  queues : exchange.device.Queues
  ledger : exchange.device.db.Ledger
  known : ∀ command ∈ exchange.pushed, command.id ∈ exchange.device.db.enqueued
  stable : ∀ entry ∈ exchange.device.db.outbox, ∀ earlier ∈ exchange.pushed,
    earlier.id = entry.id → ∀ command,
      entry.pushedAs exchange.device.engine.registry exchange.device.engine.migrations =
        .ok command → payloadChecksum command.payload = payloadChecksum earlier.payload
  alike : ∀ command ∈ exchange.pushed, ∀ other ∈ exchange.pushed, command.id = other.id →
    payloadChecksum command.payload = payloadChecksum other.payload
  asked : ∀ command ∈ exchange.asked, command ∈ exchange.pushed
  readable : Dedupe.Readable exchange.table
  recorded : ∀ id known, Dedupe.recorded exchange.table id = some known → known.result.id = id ∧
    ∃ command ∈ exchange.pushed, command.id = id ∧
      known.checksum = (payloadChecksum command.payload).bytes
  answers : ∀ result ∈ exchange.answers,
    ∃ known, Dedupe.recorded exchange.table result.id = some known ∧ known.result = result
  resolved : ∀ record ∈ exchange.device.db.resolved, ∃ known,
    Dedupe.recorded exchange.table record.1 = some known ∧ record.2 = resolutionOf known.result

variable {before after : Exchange} {event : Event}

/-- A call on the client keeps it all, whatever results in flight it was handed. -/
private theorem Agrees.call (agrees : before.Agrees) (faults : Faults) (call : ClientCall)
    (unused : ∀ entry ∈ call.queues, entry.id ∉ before.device.db.enqueued)
    (handed : ∀ result ∈ call.answers, result ∈ before.answers) :
    Agrees { before with
      device := before.device.call faults call
      pushed := before.pushed ++ call.requests before.device faults } := by
  obtain ⟨moves, queues⟩ := Device.call_moves agrees.queues faults call
  obtain ⟨registry, migrations⟩ := before.device.call_registered faults call
  have requested := call.requests_queued agrees.queues faults
  have sent : ∀ command ∈ call.requests before.device faults,
      command.id ∈ before.device.db.enqueued := by
    intro command member
    obtain ⟨entry, queued, pushed⟩ := requested command member
    rw [OutboxEntry.pushedAs_id pushed]
    exact (agrees.ledger.known _).mpr (.inl (List.mem_map_of_mem queued))
  -- an id stands for one entry of the outbox, and so for one command of this version
  have again : ∀ entry ∈ before.device.db.outbox, ∀ earlier ∈ call.requests before.device faults,
      earlier.id = entry.id → ∀ command, entry.pushedAs before.device.engine.registry
        before.device.engine.migrations = .ok command → command = earlier := by
    intro entry queued earlier member same command pushed
    obtain ⟨other, queued', pushed'⟩ := requested earlier member
    have one : other = entry := List.inj_on_of_nodup_map agrees.ledger.queuedOnce queued' queued
      ((OutboxEntry.pushedAs_id pushed').symm.trans same)
    rw [one, pushed] at pushed'
    exact Except.ok.inj pushed'
  refine ⟨queues, agrees.ledger.moves moves unused, fun command member => ?_, ?_, ?_,
    fun command member => List.mem_append_left _ (agrees.asked command member), agrees.readable,
    fun id known found => ?_, agrees.answers, fun record member => ?_⟩
  · refine moves.enqueued ?_
    rcases List.mem_append.mp member with member | member
    · exact agrees.known command member
    · exact sent command member
  · intro entry member earlier inside same command pushed
    simp only [registry, migrations] at pushed
    have used : earlier.id ∈ before.device.db.enqueued := by
      rcases List.mem_append.mp inside with inside | inside
      · exact agrees.known earlier inside
      · exact sent earlier inside
    rcases moves.outbox entry member with queued | entering
    · rcases List.mem_append.mp inside with inside | inside
      · exact agrees.stable entry queued earlier inside same command pushed
      · rw [again entry queued earlier inside same command pushed]
    · rw [same] at used
      exact absurd used (unused entry entering)
  · have fresh : ∀ command ∈ call.requests before.device faults,
        ∀ other ∈ before.pushed ++ call.requests before.device faults, command.id = other.id →
          payloadChecksum command.payload = payloadChecksum other.payload := by
      intro command member other inside same
      obtain ⟨entry, queued, pushed⟩ := requested command member
      have named := same.symm.trans (OutboxEntry.pushedAs_id pushed)
      rcases List.mem_append.mp inside with inside | inside
      · exact agrees.stable entry queued other inside named command pushed
      · rw [again entry queued other inside named command pushed]
    intro command member other inside same
    rcases List.mem_append.mp member with member | member
    · rcases List.mem_append.mp inside with inside | inside
      · exact agrees.alike command member other inside same
      · exact (fresh other inside command (List.mem_append_left _ member) same.symm).symm
    · exact fresh command member other inside same
  · obtain ⟨named, command, member, recorded⟩ := agrees.recorded id known found
    exact ⟨named, command, List.mem_append_left _ member, recorded⟩
  · rcases moves.answered record member with earlier | ⟨result, answered, rfl⟩
    · exact agrees.resolved record earlier
    · obtain ⟨known, found, same⟩ := agrees.answers result (handed result answered)
      exact ⟨known, found, by rw [same]⟩

private theorem Agrees.restart (agrees : before.Agrees) {registry : Registry}
    {migrations : Migrations} {scopes : List ScopeId}
    (keeps : before.KeepsPayloads (.restart registry migrations scopes)) :
    Agrees { before with device := Device.restart registry migrations scopes before.device.db } := by
  obtain ⟨restored, health, started⟩ :=
    Device.restart_engine registry migrations scopes before.device.db
  refine { agrees with
    queues := fun _ => by rw [started]; rfl
    stable := fun entry member earlier inside same command pushed => ?_ }
  simp only [started] at pushed
  refine keeps entry member earlier inside same command ?_
  rw [pushed]
  rfl

/-- A result that is recorded may be told to anyone. -/
private theorem Agrees.told (agrees : before.Agrees) {result : CommandResult} {known : Recorded}
    (found : Dedupe.recorded before.table result.id = some known) (same : known.result = result) :
    Agrees { before with answers := before.answers ++ [result] } where
  __ := agrees
  answers := by
    intro other member
    rcases List.mem_append.mp member with member | member
    · exact agrees.answers other member
    · rw [List.mem_singleton.mp member]
      exact ⟨known, found, same⟩

/-- Nothing pushed is ever taken for a mutated reuse. -/
private theorem Agrees.decide (agrees : before.Agrees) {command : Command}
    (member : command ∈ before.pushed) :
    Dedupe.classify before.table command =
      .ok (match Dedupe.recorded before.table command.id with
        | none => .fresh
        | some known => .replay known.result) := by
  rw [Dedupe.classify_recorded agrees.readable]
  cases found : Dedupe.recorded before.table command.id with
  | none => rfl
  | some known =>
    obtain ⟨_, other, inside, named, checksum⟩ := agrees.recorded command.id known found
    rw [agrees.alike other inside command member named] at checksum
    simp only [Dedupe.decide, checksum, ne_eq, not_true_eq_false, if_false]

private theorem Agrees.receive (agrees : before.Agrees) {command : Command}
    (member : command ∈ before.pushed) {index : Nat} (found : before.pushed[index]? = some command)
    (goes : before.next (.receive index) = some after) : after.Agrees := by
  have classified := agrees.decide member
  simp only [next, found, Option.map_some, Option.some.injEq] at goes
  cases held : Dedupe.recorded before.table command.id with
  | none =>
    rw [held] at classified
    simp only [classified, forwardKnown] at goes
    rw [← goes]
    refine { agrees with asked := fun other inside => ?_ }
    rcases List.mem_append.mp inside with inside | inside
    · exact agrees.asked other inside
    · rwa [List.mem_singleton.mp inside]
  | some known =>
    rw [held] at classified
    simp only [classified, forwardKnown] at goes
    rw [← goes]
    have named := (agrees.recorded command.id known held).1
    exact agrees.told (by rw [named]; exact held) rfl

/-- The first outcome for a command is recorded with what was pushed. -/
private theorem Agrees.recordFirst (agrees : before.Agrees) {command : Command}
    {result : CommandResult} {table : ResultTable} (member : command ∈ before.pushed)
    (named : result.id = command.id) (absent : Dedupe.recorded before.table command.id = none)
    (readable : Dedupe.Readable table)
    (recorded : ∀ id, Dedupe.recorded table id =
      if id = command.id then some ⟨(payloadChecksum command.payload).bytes, result⟩
      else Dedupe.recorded before.table id) :
    Agrees { before with table := table, answers := before.answers ++ [result] } := by
  have kept : ∀ id known, Dedupe.recorded before.table id = some known →
      Dedupe.recorded table id = some known := by
    intro id known found
    have other : id ≠ command.id := by
      rintro rfl
      rw [absent] at found
      cases found
    rw [recorded, if_neg other, found]
  refine { agrees with
    readable := readable
    recorded := fun id known found => ?_
    answers := fun other inside => ?_
    resolved := fun record inside => ?_ }
  · rw [recorded] at found
    split at found
    · rename_i same
      cases found
      exact ⟨named.trans same.symm, command, member, same.symm, rfl⟩
    · exact agrees.recorded id known found
  · rcases List.mem_append.mp inside with inside | inside
    · obtain ⟨known, found, same⟩ := agrees.answers other inside
      exact ⟨known, kept _ _ found, same⟩
    · rw [List.mem_singleton.mp inside]
      exact ⟨_, by rw [recorded, if_pos named], rfl⟩
  · obtain ⟨known, found, same⟩ := agrees.resolved record inside
    exact ⟨known, kept _ _ found, same⟩

private theorem Agrees.conclude (agrees : before.Agrees) {command : Command}
    (member : command ∈ before.pushed) (outcome : Except HostError HostOutcome) :
    (before.forwarded (forwardFresh before.table command outcome).2
      (forwardFresh before.table command outcome).1).Agrees := by
  cases outcome with
  | error e =>
    simp only [forwardFresh, forwarded, Forwarded.result, Option.toList_none, List.append_nil]
    exact agrees
  | ok outcome =>
    obtain ⟨named, valid⟩ := outcome.result_valid command.id
    simp only [forwardFresh]
    obtain ⟨absent, table, done, readable, recorded⟩ | ⟨known, held, ⟨e, done⟩ | ⟨_, done⟩⟩ :=
      Dedupe.record_cases agrees.readable command (outcome.result command.id) named valid
    · rw [done]
      exact agrees.recordFirst member named absent readable recorded
    · rw [done]
      exact agrees
    · rw [done]
      have same := (agrees.recorded command.id known held).1
      exact agrees.told (by rw [same]; exact held) rfl

theorem PayloadStep.agrees (step : PayloadStep before event after) (agrees : before.Agrees) :
    after.Agrees := by
  obtain ⟨keeps, unused, goes⟩ := step
  cases event with
  | call faults call =>
    cases call with
    | applyResults response => cases goes
    | enqueue entry =>
      cases goes
      refine agrees.call faults (.enqueue entry) (fun other same => ?_) fun _ member => nomatch member
      cases same
      exact unused
    | _ =>
      cases goes
      exact agrees.call faults _ (fun _ same => nomatch same) fun _ member => nomatch member
  | answer faults protocol indexes =>
    cases goes
    have inFlight : ∀ result ∈ indexes.filterMap (before.answers[·]?), result ∈ before.answers := by
      intro result member
      obtain ⟨index, _, found⟩ := List.mem_filterMap.mp member
      exact List.mem_of_getElem? found
    have called := agrees.call faults
      (.applyResults ⟨protocol, indexes.filterMap (before.answers[·]?)⟩)
      (fun _ same => nomatch same) inFlight
    simpa only [ClientCall.requests, List.append_nil] using called
  | restart registry migrations scopes =>
    cases goes
    exact agrees.restart keeps
  | receive index =>
    cases found : before.pushed[index]? with
    | none => simp [next, found] at goes
    | some command => exact agrees.receive (List.mem_of_getElem? found) found goes
  | conclude index outcome =>
    obtain ⟨command, found, rfl⟩ := Option.map_eq_some_iff.mp goes
    exact agrees.conclude (agrees.asked command (List.mem_of_getElem? found)) outcome

theorem start_agrees (registry : Registry) (migrations : Migrations) (scopes : List ScopeId) :
    (start registry migrations scopes).Agrees where
  queues := fun _ => by
    obtain ⟨restored, health, started⟩ := Device.restart_engine registry migrations scopes {}
    rw [start, started]
    rfl
  ledger := ⟨List.nodup_nil, List.nodup_nil, (fun id member => nomatch member), fun id =>
    ⟨fun member => absurd member (Finset.notMem_empty id), fun member => by
      rcases member with member | member <;> cases member⟩⟩
  known := fun _ member => nomatch member
  stable := fun _ member => nomatch member
  alike := fun _ member => nomatch member
  asked := fun _ member => nomatch member
  readable := Dedupe.readable_empty
  recorded := fun _ _ found => nomatch found
  answers := fun _ member => nomatch member
  resolved := fun _ member => nomatch member

/-- While no upgrade changes what is pushed again, a command the server recorded as
applied is never dead-lettered: it is still queued, or resolved as applied. -/
theorem applied_is_never_dead_lettered (registry : Registry) (migrations : Migrations)
    (scopes : List ScopeId) (labels : List Event) (exchange : Exchange)
    (run : Transition.Run PayloadStep (start registry migrations scopes) labels exchange) :
    ∀ id known, Dedupe.recorded exchange.table id = some known →
      known.result.status = .applied →
      (∀ reason, (id, .deadLettered reason) ∉ exchange.device.db.resolved) ∧
      ((∃ entry ∈ exchange.device.db.outbox, entry.id = id) ∨
        ∃ serverSeq, (id, .applied serverSeq) ∈ exchange.device.db.resolved) := by
  have agrees := run.invariant (fun _ _ _ agrees step => step.agrees agrees)
    (start_agrees registry migrations scopes)
  intro id known found applied
  have outcome : ∀ resolution, (id, resolution) ∈ exchange.device.db.resolved →
      resolution = .applied known.result.serverSeq := by
    intro resolution member
    obtain ⟨other, found', same⟩ := agrees.resolved _ member
    cases found.symm.trans found'
    exact same.trans (by rw [resolutionOf, applied])
  refine ⟨fun reason member => (nomatch outcome _ member), ?_⟩
  obtain ⟨_, command, pushed, named, _⟩ := agrees.recorded id known found
  have enqueued := agrees.known command pushed
  rw [named] at enqueued
  rcases (agrees.ledger.known id).mp enqueued with queued | resolved
  · exact .inl (List.mem_map.mp queued)
  · obtain ⟨⟨_, resolution⟩, member, rfl⟩ := List.mem_map.mp resolved
    exact .inr ⟨known.result.serverSeq, outcome resolution member ▸ member⟩

end Steps

end Exchange

namespace Sample

open Exchange

def newerSchema : SchemaVersion := 2

/-- A migration that leaves documents as they are, and one that stamps them. -/
def leaving : Migrations := Migrations.new.register note schema .ok
def stamping : Migrations :=
  Migrations.new.register note schema fun _ => .ok (.object [("v", .number (.posInt 2))])

local instance exchangeHashes : Hashing := .ofTable []
  [(ascii "\x7b\x7d",
      ⟨⟨[0x6e, 0x46, 0xdd, 0x10, 0xde, 0xfc, 0x9b, 0x56, 0xc2, 0x9a, 0x6e, 0xc5, 0x6b, 0x50,
        0x8c, 0x21, 0xf5, 0x4c, 0x08, 0x19, 0x21, 0x94, 0xe4, 0xdf, 0x25, 0xbf, 0x36, 0xf0, 0xc9, 0xc3, 0xc2, 0x79]⟩, rfl⟩),
    (ascii "\x7b\"v\":2\x7d",
      ⟨⟨[0x75, 0x8f, 0x15, 0xa2, 0x71, 0xc8, 0x3f, 0xb0, 0xc6, 0x5f, 0xc9, 0xeb, 0xdf, 0x7d,
        0x76, 0xdb, 0xb2, 0x12, 0xa7, 0x4b, 0x12, 0xf2, 0xe1, 0x47, 0xae, 0x9a, 0xf4, 0x74, 0x69, 0xfd, 0x0b, 0x2c]⟩, rfl⟩)]

/-- The answer to the first push is lost; the app is upgraded and pushes again. -/
def upgraded (migrations : Migrations) : List Exchange.Event :=
  [.call .none (.enqueue edit), .call .none (.buildPush List.length 1 4096),
    .receive 0, .conclude 0 (.ok (.applied 1)),
    .restart (app newerSchema) migrations [scope],
    .call .none (.buildPush List.length 1 4096), .receive 1,
    .answer .none 1 [1]]

theorem upgradedUnchanged_applies : ∃ exchange,
    Transition.Run PayloadStep (start (app schema) Migrations.new [scope]) (upgraded leaving) exchange ∧
    exchange.device.db.outbox = [] ∧
    ∃ serverSeq, (edit.id, .applied serverSeq) ∈ exchange.device.db.resolved := by
  have followed : (Transition.follow
      (fun exchange event => decide (exchange.KeepsPayloads event ∧ exchange.Unused event)) next
      (start (app schema) Migrations.new [scope]) (upgraded leaving)).any (fun exchange =>
        exchange.device.db.outbox.isEmpty &&
          (Dedupe.recorded exchange.table edit.id).any fun known =>
            decide (known.result.status = .applied)) = true := by
    decide +kernel
  have taken : ∀ before label after,
      decide (Exchange.KeepsPayloads before label ∧ Exchange.Unused before label) = true →
      before.next label = some after → PayloadStep before label after :=
    fun _ _ _ allowed goes => ⟨(of_decide_eq_true allowed).1, (of_decide_eq_true allowed).2, goes⟩
  obtain ⟨exchange, run, test⟩ := Transition.Run.of_follow_any taken followed
  obtain ⟨empty, applied⟩ := Bool.and_eq_true_iff.mp test
  obtain ⟨known, found, applied⟩ := (Option.any_eq_true ..).mp applied
  have nothing : exchange.device.db.outbox = [] := List.isEmpty_iff.mp empty
  have kept := applied_is_never_dead_lettered (app schema) Migrations.new [scope] (upgraded leaving)
    exchange run edit.id known found (of_decide_eq_true applied)
  refine ⟨exchange, run, nothing, kept.2.resolve_left ?_⟩
  rw [nothing]
  rintro ⟨entry, member, _⟩
  cases member

/-- Pushed again with another payload, the command is refused as a mutated reuse, and
dead-lettered although it was applied. -/
theorem upgradedStamped_deadLetters : ∃ exchange,
    Transition.Run Step (start (app schema) Migrations.new [scope]) (upgraded stamping) exchange ∧
    (∃ known, Dedupe.recorded exchange.table edit.id = some known ∧
      known.result.status = .applied) ∧
    (edit.id, .deadLettered Dedupe.mutatedReason) ∈ exchange.device.db.resolved := by
  have followed : (Transition.follow (fun exchange event => decide (exchange.Unused event)) next
      (start (app schema) Migrations.new [scope]) (upgraded stamping)).any (fun exchange =>
        (Dedupe.recorded exchange.table edit.id).any (fun known =>
            decide (known.result.status = .applied)) &&
          decide ((edit.id, .deadLettered Dedupe.mutatedReason) ∈ exchange.device.db.resolved)) =
      true := by
    decide +kernel
  have taken : ∀ before label after, decide (Exchange.Unused before label) = true →
      before.next label = some after → Step before label after :=
    fun _ _ _ allowed goes => ⟨of_decide_eq_true allowed, goes⟩
  obtain ⟨exchange, run, test⟩ := Transition.Run.of_follow_any taken followed
  obtain ⟨applied, dead⟩ := Bool.and_eq_true_iff.mp test
  obtain ⟨known, found, applied⟩ := (Option.any_eq_true ..).mp applied
  exact ⟨exchange, run, ⟨known, found, of_decide_eq_true applied⟩, of_decide_eq_true dead⟩

end Sample

end CredSync
