import CredSync.Core.Coherence
import CredSync.Sim.Checks
import CredSync.Sim.Pressure

/-! The simulated world: devices that run the real engine, one server, the responses in
flight between them, and everything that goes wrong. One step lets time pass, gives each
device its turn, carries what they sent, delivers what is due, and checks every claim. -/

namespace CredSync.Sim

/-- How long one step lasts, in milliseconds. -/
def stepMs : Int := 60000

/-- How long connectivity stays lost. -/
def flapDurationMs : Int := 90000

/-- How far a device's clock may be off. -/
def skewMagnitudeMs : Int := 3 * 24 * 60 * 60 * 1000

/-- Changes per pull. -/
def pullLimit : Nat := 4

/-- The compressed size a push is filled up to. -/
def pushBudgetBytes : Nat := 100000

def startMs : Int := 1756137600000

/-! ### Clocks -/

/-- `i64` arithmetic that stops at its bounds. -/
def saturating (value : Int) : Int := max (-2 ^ 63) (min value (2 ^ 63 - 1))

/-- True time, and what one device makes of it. -/
structure ClockState where
  nowMs : Int
  skewMs : Int
  driftPpm : Int
  epochMs : Int

/-- What the device thinks the time is. -/
def ClockState.apparentMs (clock : ClockState) : Int :=
  let elapsed := clock.nowMs - clock.epochMs
  let drift := (saturating (elapsed * clock.driftPpm)).tdiv 1000000
  saturating (saturating (clock.nowMs + clock.skewMs) + drift)

/-! ### The network -/

inductive WireRequest where
  | bootstrap (request : BootstrapRequest)
  | pull (request : Wire.PullRequest)
  | push (request : PushRequest)

inductive WireResponse where
  | bootstrap (response : BootstrapResponse)
  | pull (response : Wire.PullResponse)
  | push (response : PushResponse)
  | upgradeRequired (envelope : ForcedUpgrade)

inductive TransportError where
  | unreachable (detail : String)
  | status (code : Nat) (body : Option Bytes)
  | malformed (detail : String)

/-- A response on its way, or what is left of it. -/
abbrev Arrival := Except TransportError WireResponse

/-- A response in flight, waiting for its delivery time. -/
structure InFlight where
  device : Nat
  deliverAtMs : Int
  response : Arrival

/-! ### Devices -/

/-- One simulated device: the engine over its storage, and the transport, clock and
compressor the engine was given. -/
structure SimDevice where
  device : Device
  clock : ClockState
  /-- How much the compressor shrinks its input. -/
  divisor : Nat
  /-- Requests parked for the world to carry. -/
  pending : List WireRequest := []
  online : Bool := true
  /-- When connectivity returns; zero while it is there. -/
  offlineUntilMs : Int := 0
  requestsSent : Nat := 0
  commandsAuthored : UInt32 := 0
  /-- The next transaction commits and then the process dies. -/
  pendingKill : Bool := false

/-- The compressor of a device. -/
def SimDevice.compressed (d : SimDevice) (bytes : Bytes) : Nat :=
  (bytes.length + d.divisor - 1) / d.divisor

/-- Everything the world is made of. -/
structure World (Gen : Type) where
  devices : List SimDevice
  server : Server
  rng : Gen
  rates : FaultRates
  nowMs : Int
  inFlight : List InFlight := []
  scope : ScopeId
  entity : EntityName
  /-- Nobody authors new work. -/
  quiet : Bool := false
  invariants : Invariants := {}
  registry : Registry
  pressure : Pressure := Pressure.default

/-! ### What devices are built with -/

def submitReflection : CommandName := ⟨ascii "submit_reflection", by decide⟩
def cohort : ScopeId := ⟨ascii "inst:adl:enr:2026-cohort", by decide⟩
def reflections : EntityName := ⟨ascii "reflections", by decide⟩

/-- `register`: the entity and the command of every device in a run. -/
def register (registry : Registry) (entity : EntityName) (scope : ScopeId) : Registry :=
  (registry.registerEntity ⟨entity, scope, .ownerDraft, 1⟩).registerCommand submitReflection entity

/-- `{ "body": "x".repeat(32) }`. -/
def reflection : Payload :=
  ⟨.object [("body", .string "xxxxxxxxxxxxxxxxxxxxxxxxxxxxxxxx")], by rfl⟩

def hexPlaceholder : HexString := hexU128 0

theorem version_seven : (0x70 : UInt8) >>> 4 = 7 := by decide

/-- A UUIDv7 built from a device index and a counter. -/
def commandId (device : UInt8) (n : UInt32) : CommandId where
  bytes := #v[0x01, 0x91, 0, 0, 0, 0, 0x70, 0, 0, 0, 0, device,
    (n >>> 24).toUInt8, (n >>> 16).toUInt8, (n >>> 8).toUInt8, n.toUInt8]
  version := version_seven

def digestFromHex (hex : HexString) : Option ScopeDigest :=
  (fromStrRadix hex.bytes).map ScopeDigest.mk

/-- The engine of a restart: a fresh one, given what the database holds. -/
def reloaded (entity : EntityName) (scope : ScopeId) (db : Db) : Engine :=
  let engine : Engine := { registry := register Registry.new entity scope }
  let engine := match db.cursors.lookup scope with
    | some cursor =>
      let digest := ((db.digests.lookup scope).bind digestFromHex).getD ScopeDigest.empty
      engine.restoreScope scope ⟨cursor, digest⟩
    | none => engine
  engine.restoreOutbox db.outbox

namespace SimDevice

variable {Gen : Type} [Chance Gen]

open Chance

/-- `restart_device`: everything in memory is lost, the transport's requests with it. -/
def restart (entity : EntityName) (scope : ScopeId) (d : SimDevice) (rng : Gen) :
    SimDevice × Gen :=
  let (_, rng) := nextU64 rng
  ({ d with
      device := ⟨reloaded entity scope d.device.db, d.device.db⟩
      divisor := 4
      pending := []
      online := true
      pendingKill := false }, rng)

/-- Carries out a kill that was armed. -/
def maybeKill (entity : EntityName) (scope : ScopeId) (d : SimDevice) (rng : Gen) :
    SimDevice × Gen :=
  if d.pendingKill then restart entity scope { d with pendingKill := false } rng else (d, rng)

/-- Decides what the device's next transaction does. -/
def armStorage (rates : FaultRates) (d : SimDevice) (rng : Gen) :
    StorageVerdict × SimDevice × Gen :=
  match decideStorage rng rates with
  | (some .storageFailed, rng) => (.failBeforeCommit, d, rng)
  | (some .storageCommittedThenKilled, rng) =>
      (.commitThenLoseAck, { d with pendingKill := true }, rng)
  | (some .storageLiedAboutCommit, rng) => (.commitThenLoseAck, d, rng)
  | (_, rng) => (.commit, d, rng)

/-- One call into the engine, its transaction armed before and a kill carried out after. -/
def exposed [Hashing] (entity : EntityName) (scope : ScopeId) (rates : FaultRates)
    (call : ClientCall) (d : SimDevice) (rng : Gen) : SimDevice × Gen :=
  let (verdict, d, rng) := d.armStorage rates rng
  maybeKill entity scope { d with device := d.device.call { verdict := verdict } call } rng

/-- `Transport::enqueue`: parks a request unless connectivity is lost. -/
def send (d : SimDevice) (request : WireRequest) : SimDevice :=
  if d.online then { d with pending := d.pending ++ [request] } else d

/-- The command a device authors next. -/
def nextCommand (scope : ScopeId) (index : Nat) (d : SimDevice) : Command where
  id := commandId (UInt8.ofNat index) d.commandsAuthored
  name := submitReflection
  scope := scope
  payload := reflection
  clientTs := Int64.ofInt d.clock.apparentMs
  checksum := hexPlaceholder

def authorCommand [Hashing] (entity : EntityName) (scope : ScopeId) (rates : FaultRates)
    (index : Nat) (d : SimDevice) (rng : Gen) : SimDevice × Gen :=
  let command := d.nextCommand scope index
  let d := { d with commandsAuthored := d.commandsAuthored + 1 }
  d.exposed entity scope rates (.enqueue ⟨command, 1⟩) rng

/-- Sends a push, if there is anything queued. -/
def pushStep (d : SimDevice) : SimDevice :=
  match d.device.buildPush .none d.compressed 1 pushBudgetBytes with
  | (.ok (some request), device) =>
    let d := { d with device := device }
    if request.commands.isEmpty then d else d.send (.push request)
  | (_, device) => { d with device := device }

/-- What a pull from the engine's cursor asks. -/
def pullRequest (scope : ScopeId) (d : SimDevice) : Wire.PullRequest where
  protocol := 1
  scopes := [⟨scope, ((d.device.engine.scopes.lookup scope).map (·.cursor)).getD Cursor.start⟩]
  limitBytes := none

/-- Sends a pull, unless the scope is suspect and cannot be reloaded. -/
def pullStep [Hashing] (scope : ScopeId) (d : SimDevice) : SimDevice :=
  if d.device.engine.needsReload scope then
    match d.device.reloadScope .none scope with
    | (.error _, device) => { d with device := device }
    | (.ok (), device) =>
      let d := { d with device := device }
      d.send (.pull (d.pullRequest scope))
  else d.send (.pull (d.pullRequest scope))

/-- Connectivity comes back when its flap is over, or may be lost. -/
def flap (rates : FaultRates) (nowMs : Int) (d : SimDevice) (rng : Gen) : SimDevice × Gen :=
  if 0 < d.offlineUntilMs ∧ d.offlineUntilMs ≤ nowMs then
    ({ d with offlineUntilMs := 0, online := true }, rng)
  else if d.offlineUntilMs = 0 then
    let (lost, rng) := chance rates.connectivityFlap rng
    if lost then ({ d with offlineUntilMs := nowMs + flapDurationMs, online := false }, rng)
    else (d, rng)
  else (d, rng)

/-- `device_step`: one device's turn. -/
def turn [Hashing] (world : World Gen) (index : Nat) (d : SimDevice) (rng : Gen) :
    SimDevice × Gen :=
  let (d, rng) := d.flap world.rates world.nowMs rng
  let (restarts, rng) := chance world.rates.deviceRestart rng
  let (d, rng) := if restarts then d.restart world.entity world.scope rng else (d, rng)
  let (authors, rng) := if world.quiet then (false, rng) else chance 1 rng
  let (d, rng) :=
    if authors then d.authorCommand world.entity world.scope world.rates index rng else (d, rng)
  (d.pushStep.pullStep world.scope, rng)

/-- One batch of a pull response, applied. -/
def applyPulled [Hashing] (world : World Gen) :
    List Batch → SimDevice → Gen → SimDevice × Gen
  | [], d, rng => (d, rng)
  | batch :: rest, d, rng =>
    let (d, rng) := d.exposed world.entity world.scope world.rates (.applyBatch batch) rng
    applyPulled world rest d rng

/-- What a response does to the device it was for. -/
def receive [Hashing] (world : World Gen) (response : Arrival) (d : SimDevice) (rng : Gen) :
    SimDevice × Gen :=
  match response with
  | .ok (.pull response) => d.applyPulled world response.batches rng
  | .ok (.push response) =>
      d.exposed world.entity world.scope world.rates (.applyResults response) rng
  | _ => (d, rng)

end SimDevice

/-! ### The server's side -/

section Answering

variable {Gen : Type} [Chance Gen]

open Chance

/-- The roll of the host's decision, made only where there is one to make. -/
def Server.roll [Hashing] (server : Server) (command : Command) (rng : Gen) : UInt32 × Gen :=
  match Dedupe.decide command (server.recorded command.id),
      server.commandTargets.lookup command.name.bytes with
  | .fresh, some _ => below 100 rng
  | _, _ => (0, rng)

def Server.answerCommand [Hashing] (server : Server) (command : Command) (rng : Gen) :
    Option (CommandResult × Server × Gen) :=
  let (roll, rng) := server.roll command rng
  (server.applyCommand command roll.toNat).map fun (result, server) => (result, server, rng)

/-- `push_prefix`, given the commands it has been cut to. -/
def Server.pushPrefix [Hashing] : List Command → Server → Gen →
    Option (List CommandResult × Server × Gen)
  | [], server, rng => some ([], server, rng)
  | command :: rest, server, rng =>
    (server.answerCommand command rng).bind fun (result, server, rng) =>
      (Server.pushPrefix rest server rng).map fun (results, server, rng) =>
        (result :: results, server, rng)

/-- Repeats the last result, so one command is answered twice. -/
def repeatLastResult (results : List CommandResult) : List CommandResult :=
  results ++ results.getLast?.toList

/-- Repeats the last change of the first batch that has any. -/
def repeatLastChange : List Batch → List Batch
  | [] => []
  | batch :: rest =>
    match batch.changes.getLast? with
    | some last => { batch with changes := batch.changes ++ [last] } :: rest
    | none => batch :: repeatLastChange rest

/-- What carrying the network has done so far. -/
structure Carrying (Gen : Type) where
  server : Server
  rng : Gen
  pressure : Pressure
  inFlight : List InFlight
  /-- Responses a later one is to overtake. -/
  held : List InFlight := []

/-- What a fault leaves of a response. -/
def spoil (fault : Option Fault) (response : WireResponse) : Arrival :=
  match fault with
  | some .severed => .error (.malformed "severed mid-batch")
  | some .malformed => .error (.malformed "corrupted bytes")
  | _ => .ok response

namespace Carrying

/-- Puts a response in flight, as the fault asks. -/
def launch (rates : FaultRates) (nowMs : Int) (index : Nat) (fault : Option Fault)
    (response : WireResponse) (carrying : Carrying Gen) : Carrying Gen :=
  let (latency, rng) := range rates.latencyMs.1 rates.latencyMs.2 carrying.rng
  let flight : InFlight := ⟨index, nowMs + latency.toNat, spoil fault response⟩
  match fault with
  | some .duplicated =>
    let (later, rng) := range 1 500 rng
    let copy := { flight with deliverAtMs := flight.deliverAtMs + later.toNat }
    { carrying with rng := rng, inFlight := carrying.inFlight ++ [copy, flight] }
  | some .reordered => { carrying with rng := rng, held := carrying.held ++ [flight] }
  | _ => { carrying with rng := rng, inFlight := carrying.inFlight ++ [flight] }

/-- Carries one request, the so-manieth its device sent. -/
def carry [Hashing] (rates : FaultRates) (nowMs : Int) (index sent : Nat)
    (carrying : Carrying Gen) (request : WireRequest) : Option (Carrying Gen) :=
  match decideResponse carrying.rng rates sent with
  | (some .dropped, rng) => some { carrying with rng := rng }
  | (fault, rng) =>
    let (violate, rng) := chance rates.protocolViolation rng
    match request with
    | .pull request =>
      let batches := carrying.server.pull request.scopes pullLimit carrying.pressure.budgetBytes
      let batches := if violate then repeatLastChange batches else batches
      some (launch rates nowMs index fault (.pull ⟨request.protocol, batches⟩)
        { carrying with rng := rng })
    | .push request =>
      let (accepted, pressure) := carrying.pressure.acceptCount request.commands.length
      (Server.pushPrefix (request.commands.take accepted) carrying.server rng).map
        fun (results, server, rng) =>
          let results := if violate then repeatLastResult results else results
          launch rates nowMs index fault (.push ⟨request.protocol, results⟩)
            { carrying with server := server, rng := rng, pressure := pressure }
    | .bootstrap _ => some { carrying with rng := rng }

/-- Carries what one device sent, in order. -/
def carryAll [Hashing] (rates : FaultRates) (nowMs : Int) (index : Nat) :
    Nat → List WireRequest → Carrying Gen → Option (Carrying Gen)
  | _, [], carrying => some carrying
  | sent, request :: rest, carrying =>
    (carrying.carry rates nowMs index (sent + 1) request).bind
      (carryAll rates nowMs index (sent + 1) rest)

/-- Carries what every device sent. -/
def carryDevices [Hashing] (rates : FaultRates) (nowMs : Int) :
    Nat → List SimDevice → Carrying Gen → Option (Carrying Gen)
  | _, [], carrying => some carrying
  | index, d :: rest, carrying =>
    (carrying.carryAll rates nowMs index d.requestsSent d.pending).bind
      (carryDevices rates nowMs (index + 1) rest)

/-- Held responses rejoin behind whatever overtook them. -/
def release (nowMs : Int) : List InFlight → Gen → List InFlight × Gen
  | [], rng => ([], rng)
  | flight :: rest, rng =>
    let (later, rng) := range 1 900 rng
    let (released, rng) := release nowMs rest rng
    ({ flight with deliverAtMs := nowMs + stepMs + later.toNat } :: released, rng)

end Carrying

end Answering

/-! ### One step -/

namespace World

variable {Gen : Type} [Chance Gen]

open Chance

/-- Time passes for the world and for every clock. -/
def passTime (world : World Gen) : World Gen :=
  let nowMs := world.nowMs + stepMs
  { world with
    nowMs := nowMs
    devices := world.devices.map fun d => { d with clock := { d.clock with nowMs := nowMs } } }

/-- Commits land, a writer may hold its transaction open, and load comes and goes. -/
def stir (world : World Gen) : World Gen :=
  let server := world.server.advanceCommits
  let (slow, rng) := if world.quiet then (false, world.rng) else chance world.rates.slowCommit world.rng
  let (server, rng) :=
    if slow then
      let (delay, rng) := range 1 4 rng
      (server.holdNextWrite delay.toNat, rng)
    else (server, rng)
  -- a restart of the server clears a flag that nothing reads
  let (_, rng) := chance world.rates.serverRestart rng
  let pressure := world.pressure.tick
  let (loaded, rng) :=
    if world.quiet || pressure.isShedding then (false, rng) else chance world.rates.overload rng
  let (pressure, rng) := if loaded then pressure.overload rng else (pressure, rng)
  { world with server := server, rng := rng, pressure := pressure }

/-- One of eight rows, by a draw below eight. -/
def rowPicked (row : UInt32) : Fin 8 := ⟨row.toNat % 8, Nat.mod_lt _ (by decide)⟩

/-- Somebody else writes, now and then. -/
def writeExternally (world : World Gen) : Option (World Gen) :=
  let (writes, rng) := if world.quiet then (false, world.rng) else chance 2 world.rng
  if writes then
    let (row, rng) := below 8 rng
    (world.server.externalChange world.scope world.entity (rowPicked row)).map fun server =>
      { world with server := server, rng := rng }
  else some { world with rng := rng }

/-- Each device acts in turn, all on one generator. -/
def turns [Hashing] (world : World Gen) : Nat → List SimDevice → Gen → List SimDevice × Gen
  | _, [], rng => ([], rng)
  | index, d :: rest, rng =>
    let (d, rng) := d.turn world index rng
    let (rest, rng) := turns world (index + 1) rest rng
    (d :: rest, rng)

def takeTurns [Hashing] (world : World Gen) : World Gen :=
  let (devices, rng) := world.turns 0 world.devices world.rng
  { world with devices := devices, rng := rng }

/-- Takes everything the devices sent, and answers it. -/
def carryNetwork [Hashing] (world : World Gen) : Option (World Gen) :=
  (Carrying.carryDevices world.rates world.nowMs 0 world.devices
      ⟨world.server, world.rng, world.pressure, world.inFlight, []⟩).map fun carrying =>
    let (released, rng) := Carrying.release world.nowMs carrying.held carrying.rng
    { world with
      devices := world.devices.map fun d =>
        { d with pending := [], requestsSent := d.requestsSent + d.pending.length }
      server := carrying.server
      rng := rng
      pressure := carrying.pressure
      inFlight := carrying.inFlight ++ released }

/-- Hands one response to the device that asked for it. -/
def deliver [Hashing] (world : World Gen) (flight : InFlight) : World Gen :=
  match world.devices[flight.device]? with
  | none => world
  | some d =>
    let (d, rng) := d.receive world flight.response world.rng
    { world with devices := world.devices.set flight.device d, rng := rng }

/-- Hands over what is due, in the order it was put in flight. -/
def deliverDue [Hashing] (world : World Gen) : World Gen :=
  let due := world.inFlight.filter fun flight => decide (flight.deliverAtMs ≤ world.nowMs)
  let waiting := world.inFlight.filter fun flight => !decide (flight.deliverAtMs ≤ world.nowMs)
  due.foldl deliver { world with inFlight := waiting }

def databases (world : World Gen) : List Db := world.devices.map (·.device.db)

/-- The checks made after every step. -/
def check (world : World Gen) : World Gen :=
  let checker := world.invariants.checkStep world.scope world.nowMs world.databases
  let checker := checker.checkCursorBounds world.nowMs world.databases world.server world.scope
  let checker := checker.checkDurableEffects world.nowMs world.databases world.server world.scope
  let checker := checker.checkAppliedState world.nowMs world.databases world.server world.scope
  { world with invariants := checker }

/-- One step. None is the `unreachable!` of a server past the last `seq`. -/
def step [Hashing] (world : World Gen) : Option (World Gen) :=
  world.passTime.stir.writeExternally.bind fun world =>
    world.takeTurns.carryNetwork.map fun world => world.deliverDue.check

/-- So many steps, one after another. -/
def steps [Hashing] : Nat → World Gen → Option (World Gen)
  | 0, world => some world
  | n + 1, world => world.step.bind (steps n)

/-- One device of a new world. Each has a clock and a compressor of its own. -/
def newDevice (rng : Gen) : SimDevice × Gen :=
  let (skew, rng) := signed skewMagnitudeMs rng
  let (drift, rng) := range 0 400 rng
  let (_, rng) := nextU64 rng
  let (divisor, rng) := range 1 8 rng
  ({ device := ⟨{ registry := register Registry.new reflections cohort }, {}⟩
     clock := ⟨startMs, skew, drift.toNat - 200, startMs⟩
     divisor := divisor.toNat }, rng)

def newDevices : Nat → Gen → List SimDevice × Gen
  | 0, rng => ([], rng)
  | n + 1, rng =>
    let (d, rng) := newDevice rng
    let (rest, rng) := newDevices n rng
    (d :: rest, rng)

/-- A new world: two to four devices that hold nothing, and a server nobody has written to. -/
def new (rng : Gen) (rates : FaultRates) : World Gen :=
  let (count, rng) := range 2 4 rng
  let (devices, rng) := newDevices count.toNat rng
  { devices := devices
    server := Server.registerCommand {} submitReflection.bytes reflections cohort
    rng := rng
    rates := rates
    nowMs := startMs
    scope := cohort
    entity := reflections
    registry := register Registry.new reflections cohort }

/-- What settling begins with: a perfect network, and nobody writing. -/
def calmed (world : World Gen) : World Gen :=
  { world with
    rates := .none
    quiet := true
    devices := world.devices.map fun d => { d with online := true } }

/-- Runs on for so many steps with the faults switched off, and judges where everything has
settled. None is also the assertion that every write has committed. -/
def settleFor [Hashing] (quietSteps : Nat) (world : World Gen) : Option (World Gen) :=
  (world.calmed.steps quietSteps).bind fun settled =>
    if settled.server.inFlight.length = 0 then
      let checker := settled.invariants.checkConvergence settled.nowMs settled.databases
        settled.server settled.scope
      some { settled with
        rates := world.rates
        quiet := false
        invariants := checker.checkPolicy settled.nowMs settled.databases settled.registry }
    else none

def settle [Hashing] (world : World Gen) : Option (World Gen) := world.settleFor 600

/-- So many steps, and then settling. -/
def run [Hashing] (steps : Nat) (world : World Gen) : Option (World Gen) :=
  (world.steps steps).bind settle

end World

end CredSync.Sim
