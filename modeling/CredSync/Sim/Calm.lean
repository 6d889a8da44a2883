import CredSync.Core.Quarantine
import CredSync.Sim.Runs

/-! A calm world: a perfect network, honest storage, and nobody writing. What a device has
queued is answered, what it has not received is sent, and within two steps something of
either has arrived. -/

namespace CredSync

/-! ### Calls over honest storage -/

section Honest

variable {device : Device} {result : CommandResult}

/-- What is answered is resolved. -/
theorem answering_ids (registry : Registry) (outbox : List OutboxEntry)
    (results : List CommandResult) :
    ∀ id ∈ (results.foldl (answerOne registry outbox) {}).answered,
      id ∈ (results.foldl (answerOne registry outbox) {}).ids := by
  have start : ∀ id ∈ ({} : Answering).answered, id ∈ ({} : Answering).ids := nofun
  generalize ({} : Answering) = answering at start
  induction results generalizing answering with
  | nil => exact start
  | cons result rest ih =>
    refine ih _ fun id member => ?_
    unfold answerOne at member ⊢
    split
    · rename_i nothing
      rw [nothing] at member
      exact start id member
    · rename_i entry found
      rw [found] at member
      simp only at member ⊢
      split
      · rename_i before
        rw [if_pos before] at member
        exact start id member
      · rename_i fresh
        rw [if_neg fresh] at member
        rw [Answering.ids, List.map_append, List.mem_append]
        rcases Finset.mem_insert.mp member with rfl | member
        · exact .inr (List.mem_singleton_self _)
        · exact .inl (start id member)

/-- Over honest storage every result resolves the command it names, if that is queued. -/
theorem Device.applyResults_settles (queues : device.Queues) {response : PushResponse}
    (member : result ∈ response.results)
    (queued : result.id ∈ device.db.outbox.map OutboxEntry.id) :
    result.id ∈ (device.applyResults .none response).2.db.resolved.map Prod.fst := by
  obtain ⟨fresh, refreshed, same, outbox⟩ : ∃ fresh, device.refreshOutboxIfSuspect .none = (.ok (), fresh) ∧
      fresh.db = device.db ∧ fresh.engine.outbox = device.db.outbox := by
    unfold refreshOutboxIfSuspect
    split
    · exact ⟨_, rfl, rfl, rfl⟩
    · rename_i trusted
      exact ⟨_, rfl, rfl, queues (Bool.eq_false_of_not_eq_true trusted)⟩
  unfold applyResults
  rw [refreshed]
  simp only [outbox, same]
  have resolves := answering_resolves fresh.engine.registry device.db.outbox response.results
  have saves := answering_saves fresh.engine.registry device.db.outbox response.results
  have ids := answering_ids fresh.engine.registry device.db.outbox response.results
  generalize response.results.foldl (answerOne fresh.engine.registry device.db.outbox) {} =
    answering at *
  have resolved : result.id ∈ (device.db.staged answering.ops).resolved.map Prod.fst := by
    obtain ⟨entry, inside, named⟩ := List.mem_map.mp queued
    rw [resolves.records, List.map_append]
    exact List.mem_append_right _ (ids _ (saves.first result member ⟨entry, inside, named⟩))
  split
  · rename_i nothing
    rw [List.isEmpty_iff.mp nothing] at resolved
    rw [same]
    exact resolved
  · exact resolved

variable [Hashing] {scope : ScopeId} {log received : List Change} {page : Batch}

/-- Over honest storage a device goes on with the page that it asked for. -/
theorem Device.Reads.advances (reads : device.Reads log scope received) (mirrors : device.Mirrors)
    (mutable : ∀ change ∈ log,
      device.engine.registry.classOf change.entity ≠ some .appendOnly)
    (valid : ∀ change ∈ log, change.validate = .ok ())
    (ascending : KeyedLog.Ascending (fun change : Change => change.seq.get) log)
    (pageOf : Sim.PageOf log scope received page) :
    (device.applyBatch .none page).2.db.cursors.lookup scope = some page.nextCursor := by
  obtain ⟨fresh, refreshed, same⟩ := device.refreshIfSuspect_honest page.scope
  have mirrored : fresh.engine.scopeStateOr page.scope = device.db.position page.scope := by
    have mirrors' := mirrors.refresh .none page.scope
    rw [refreshed] at mirrors'
    rw [← same]
    exact mirrors' _ (device.refreshIfSuspect_trusted refreshed)
  have registered : fresh.engine.registry = device.engine.registry := by
    obtain ⟨scopes, suspect, moved⟩ := device.refreshIfSuspect_eq .none page.scope
    rw [refreshed] at moved
    rw [show fresh = _ from moved]
  have inside := ascending.sublist pageOf.within.sublist
  obtain ⟨-, above⟩ := KeyedLog.Ascending.append_iff.mp inside
  have ordered : page.Ordered (fresh.engine.scopeStateOr page.scope).cursor.get := by
    rw [mirrored, pageOf.placed, reads.holds.cursor]
    refine ⟨fun change member => ?_, fun change member => ?_, above.1, fun change member => ?_⟩
    · rcases KeyedLog.reached_eq_low_or_mem (fun change : Change => change.seq.get) 0 received with
        ⟨-, nothing⟩ | ⟨last, known, reached⟩
      · rw [lastSeq, nothing]
        exact change.seq.lower
      · rw [lastSeq, reached]
        exact above.2 last known change member
    · exact valid change (pageOf.within.subset (List.mem_append_right _ member))
    · rw [pageOf.nextCursor]
      exact inside.le_reached (List.mem_append_right _ member)
  obtain ⟨plan, planned⟩ := fresh.plan_honest ordered
    (fun change member => by
      rw [registered]
      exact mutable change (pageOf.within.subset (List.mem_append_right _ member)))
    (!page.hasMore) false
  have plans := fresh.plan_plans planned
  have cursors := plans.cursors
  rw [pageOf.placed] at cursors
  unfold Device.applyBatch Device.applyChanges
  simp only [refreshed, planned]
  change (fresh.db.staged plan.ops).cursors.lookup scope = _
  rw [cursors, Finmap.lookup_insert]

end Honest

namespace Sim

/-! ### Turns -/

namespace SimDevice

variable {Gen : Type} [Chance Gen] [Hashing] {d : SimDevice} {server : Server} {world : World Gen}
  {index : Nat} {received : List Change}

/-- Without faults a call commits; a kill left over from before loses nothing stored. -/
theorem exposed_calm (entity : EntityName) (scope : ScopeId) (call : ClientCall) (d : SimDevice)
    (rng : Gen) :
    (d.exposed entity scope .none call rng).1.device.db = (d.device.call .none call).db ∧
      (d.online = true → (d.exposed entity scope .none call rng).1.online = true) := by
  unfold exposed armStorage
  rw [decideStorage_none]
  simp only
  unfold maybeKill
  split
  · exact ⟨rfl, fun _ => rfl⟩
  · exact ⟨rfl, id⟩

/-- A turn in a calm world only asks. -/
theorem Sound.turn_calm (sound : d.Sound server world.scope world.entity index received)
    (idle : d.pending = []) (online : d.online = true) (rates : world.rates = .none)
    (quiet : world.quiet = true) (rng : Gen) :
    (d.turn world index rng).1.device.db = d.device.db ∧
      (d.turn world index rng).1.online = true ∧
      (d.turn world index rng).1.commandsAuthored = d.commandsAuthored := by
  have flapped : ∃ offlineUntilMs rng', d.flap world.rates world.nowMs rng =
      ({ d with offlineUntilMs := offlineUntilMs, online := true }, rng') := by
    unfold flap
    rw [rates]
    split
    · exact ⟨_, _, rfl⟩
    · split
      · simp only [FaultRates.none, Chance.chance_zero, Bool.false_eq_true, if_false]
        exact ⟨d.offlineUntilMs, rng, by rw [← online]⟩
      · exact ⟨d.offlineUntilMs, rng, by rw [← online]⟩
  obtain ⟨offlineUntilMs, rng', flaps⟩ := flapped
  have sound' : Sound { d with offlineUntilMs := offlineUntilMs, online := true } server world.scope
      world.entity index received := sound.same rfl rfl
  obtain ⟨device, push, pull, asked, -, kept, -⟩ := sound'.asks idle
  have stays : Chance.chance FaultRates.none.deviceRestart rng' = (false, rng') := rfl
  unfold SimDevice.turn
  simp only [flaps]
  simp only [rates, stays, quiet, if_true, Bool.false_eq_true, if_false, asked]
  exact ⟨kept, trivial, trivial⟩

end SimDevice

namespace World

/-- No faults, nobody writing, and every device connected. -/
structure Calm {Gen : Type} (world : World Gen) : Prop where
  rates : world.rates = .none
  quiet : world.quiet = true
  online : ∀ d ∈ world.devices, d.online = true

section Turns

variable {Gen : Type} [Chance Gen] [Hashing] {world : World Gen} {received : Nat → List Change}
  {age : Nat}

omit [Hashing] in
/-- In a calm world commits land, and that is all. -/
theorem stir_calm (quiet : world.quiet = true) : ∃ rng pressure,
    world.stir.writeExternally = some { world with
      server := world.server.advanceCommits
      rng := rng
      pressure := pressure } := by
  unfold stir
  simp only [quiet, if_true, Bool.true_or]
  unfold writeExternally
  simp only [if_true, Bool.false_eq_true, if_false]
  exact ⟨_, _, rfl⟩

/-- A calm turn of everybody. -/
theorem Sound.turns_calm (sound : world.Sound received age) (calm : world.Calm)
    (short : age + 1 < 2 ^ 32) : ∃ turned,
      world.step = turned.carryNetwork.map (fun answered => answered.deliverDue.check) ∧
      Turned world turned received age ∧ turned.databases = world.databases ∧
      (∀ d ∈ turned.devices, d.online = true) ∧
      turned.server = world.server.advanceCommits := by
  obtain ⟨⟨serves, crew, idle, flying⟩, room, -, -, -⟩ := sound
  obtain ⟨committed, goes⟩ := serves.commits
  obtain ⟨rng, pressure, stirred⟩ := world.passTime.stir_calm calm.quiet
  set opened : World Gen := { world.passTime with
    server := world.passTime.server.advanceCommits
    rng := rng
    pressure := pressure }
  obtain ⟨ticked, still, onwards⟩ := World.ticks crew idle
  replace ticked : Crew opened.devices opened.server opened.scope opened.entity received age :=
    ticked.goesOn goes
  have online : ∀ d ∈ opened.devices, d.online = true := by
    intro d member
    obtain ⟨d, inside, rfl⟩ := List.mem_map.mp member
    exact calm.online d inside
  obtain ⟨turned, onward, asks⟩ := ticked.turns still short opened.rng
  -- each device after its turn, and what it was before
  have only (index : Nat) (after : SimDevice)
      (found : opened.takeTurns.devices[index]? = some after) : ∃ d, opened.devices[index]? = some d ∧
        after.device.db = d.device.db ∧ after.online = true ∧
        after.commandsAuthored = d.commandsAuthored := by
    obtain ⟨rng', turns⟩ := turns_getElem? opened 0 opened.devices opened.rng index
    change (opened.turns 0 opened.devices opened.rng).1[index]? = some after at found
    rw [turns] at found
    obtain ⟨d, there, rfl⟩ := Option.map_eq_some_iff.mp found
    have member := List.mem_of_getElem? there
    rw [Nat.zero_add]
    exact ⟨d, there, (ticked.sound index d there).turn_calm (still d member) (online d member)
      calm.rates calm.quiet rng'⟩
  refine ⟨opened.takeTurns, by rw [World.step, stirred, Option.bind_some],
    ⟨⟨_, _, _, _, rfl⟩, committed, goes,
      room.same rfl rfl (Server.seqs_advanceCommits _),
      ⟨turned.few, turned.sound, fun after member => ?_⟩, asks,
      onwards.trans onward⟩, ?_, fun after member => ?_, rfl⟩
  · obtain ⟨index, found⟩ := List.getElem?_of_mem member
    obtain ⟨d, there, -, -, counted⟩ := only index after found
    rw [counted]
    exact ticked.authored d (List.mem_of_getElem? there)
  · have length : opened.takeTurns.devices.length = world.devices.length := by
      refine (turns_length opened 0 opened.devices opened.rng).trans ?_
      exact List.length_map _
    refine List.ext_getElem? fun index => ?_
    simp only [databases, List.getElem?_map]
    cases found : opened.takeTurns.devices[index]? with
    | none =>
      rw [List.getElem?_eq_none_iff, length, ← List.getElem?_eq_none_iff] at found
      rw [found]
    | some after =>
      obtain ⟨d, there, same, -⟩ := only index after found
      obtain ⟨d, here, rfl⟩ := Option.map_eq_some_iff.mp (List.getElem?_map.symm.trans there)
      rw [here]
      exact congrArg some same
  · obtain ⟨index, found⟩ := List.getElem?_of_mem member
    obtain ⟨d, -, -, connected, -⟩ := only index after found
    exact connected

end Turns

end World

/-! ### Answers -/

/-- Due by the next step. -/
structure InFlight.Soon (flight : InFlight) (nowMs : Int) : Prop where
  later : nowMs < flight.deliverAtMs
  due : flight.deliverAtMs ≤ nowMs + stepMs

/-- At the next step a device is handed the answer to a command. -/
def Answers (flights : List InFlight) (nowMs : Int) (index : Nat) (id : CommandId) : Prop :=
  ∃ flight ∈ flights, flight.device = index ∧ flight.Soon nowMs ∧
    ∃ result ∈ Arrival.results flight.response, result.id = id

/-- At the next step a device is handed changes that come next behind those it has received. -/
def Shows [Hashing] (flights : List InFlight) (nowMs : Int) (log : List Change) (scope : ScopeId)
    (index : Nat) (received : List Change) : Prop :=
  ∃ flight ∈ flights, flight.device = index ∧ flight.Soon nowMs ∧
    ∃ page, Arrival.batches flight.response = [page] ∧ PageOf log scope received page ∧
      page.changes ≠ []

theorem Answers.mono {flights more : List InFlight} {nowMs : Int} {index : Nat} {id : CommandId}
    (answers : Answers flights nowMs index id) (within : flights ⊆ more) :
    Answers more nowMs index id := by
  obtain ⟨flight, member, rest⟩ := answers
  exact ⟨flight, within member, rest⟩

theorem Shows.mono [Hashing] {flights more : List InFlight} {nowMs : Int} {log longer : List Change}
    {scope : ScopeId} {index : Nat} {received : List Change}
    (shows' : Shows flights nowMs log scope index received) (within : flights ⊆ more)
    (grown : log <+: longer) : Shows more nowMs longer scope index received := by
  obtain ⟨flight, member, mine, soon, page, batches, pageOf, rest⟩ := shows'
  exact ⟨flight, within member, mine, soon, page, batches, pageOf.mono grown, rest⟩

namespace Carrying

section Calm

variable {Gen : Type} [Chance Gen] [Hashing] {carrying after : Carrying Gen} {start : Server}
  {scope : ScopeId} {entity : EntityName} {received : Nat → List Change} {writes : Nat}
  {issued : Finset CommandId} {nowMs : Int} {old : List InFlight} {index : Nat}

theorem carry_pull_calm (request : Wire.PullRequest) (sent : Nat) :
    carrying.carry .none nowMs index sent (.pull request) = some { carrying with
      inFlight := carrying.inFlight ++ [⟨index, nowMs + 10, .ok (.pull ⟨request.protocol,
        carrying.server.pull request.scopes pullLimit carrying.pressure.budgetBytes⟩)⟩] } := rfl

theorem carry_push_calm (request : PushRequest) (sent : Nat) :
    carrying.carry .none nowMs index sent (.push request) =
      (Server.pushPrefix
        (request.commands.take (carrying.pressure.acceptCount request.commands.length).1)
        carrying.server carrying.rng).map fun (results, server, rng) => { carrying with
          server := server
          rng := rng
          pressure := (carrying.pressure.acceptCount request.commands.length).2
          inFlight := carrying.inFlight ++
            [⟨index, nowMs + 10, .ok (.push ⟨request.protocol, results⟩)⟩] } := rfl

omit [Chance Gen] [Hashing] in
theorem soon_calm (nowMs : Int) (index : Nat) (response : Arrival) :
    (⟨index, nowMs + 10, response⟩ : InFlight).Soon nowMs := by
  have step : stepMs = 60000 := rfl
  constructor <;> simp only <;> omega

/-- A pull shows what comes next, if there was anything to come when the step began. -/
theorem Sound.pull_calm
    (sound : carrying.Sound start scope entity received writes issued nowMs old index)
    {request : Wire.PullRequest} {cursor : Cursor} (asks : request.scopes = [⟨scope, cursor⟩])
    (reached : cursor.get = lastSeq (received index))
    (read : received index <+: start.readable scope) {sent : Nat}
    (carried : carrying.carry .none nowMs index sent (.pull request) = some after) :
    after.server = carrying.server ∧ carrying.inFlight ⊆ after.inFlight ∧
      (start.readable scope <+: received index ∨ Shows after.inFlight nowMs
        (carrying.server.readable scope) scope index (received index)) := by
  rw [carry_pull_calm] at carried
  cases carried
  obtain ⟨pageOf, finished⟩ := sound.serves.page (read.trans sound.goes.readable) reached
    (show 0 < pullLimit by decide) carrying.pressure.budgetBytes
  refine ⟨rfl, List.subset_append_left _ _, ?_⟩
  by_cases nothing : (carrying.server.pullScope ⟨scope, cursor⟩ pullLimit
      carrying.pressure.budgetBytes).changes = []
  · left
    rw [finished nothing]
    exact sound.goes.readable
  · right
    refine ⟨_, List.mem_append_right _ (List.mem_singleton_self _), rfl, ?_, _, ?_, pageOf, nothing⟩
    · exact soon_calm nowMs index _
    · change carrying.server.pull request.scopes pullLimit carrying.pressure.budgetBytes = _
      rw [asks]
      rfl

/-- A push has its first command answered, and changes nothing if it has none. -/
theorem Sound.push_calm
    (sound : carrying.Sound start scope entity received writes issued nowMs old index)
    (enough : 1 + writes + issued.card ≤ Limits.seqMax) {request : PushRequest}
    (ours : ∀ command ∈ request.commands, Reflects command ∧ command.id ∈ issued) {sent : Nat}
    (carried : carrying.carry .none nowMs index sent (.push request) = some after) :
    carrying.inFlight ⊆ after.inFlight ∧ Server.GoesOn scope carrying.server after.server ∧
      (request.commands = [] → after.server = carrying.server) ∧
      ∀ command rest, request.commands = command :: rest →
        Answers after.inFlight nowMs index command.id := by
  rw [carry_push_calm] at carried
  have first : ∀ command ∈ request.commands.take
      (carrying.pressure.acceptCount request.commands.length).1,
      Reflects command ∧ command.id ∈ issued :=
    fun command member => ours command (List.mem_of_mem_take member)
  obtain ⟨results, server, rng, pushed, -, goes, -, ids, -⟩ :=
    sound.serves.pushes sound.room enough first carrying.rng
  rw [pushed] at carried
  cases carried
  refine ⟨List.subset_append_left _ _, goes, fun nothing => ?_, fun command rest asked => ?_⟩
  · rw [nothing, List.take_nil] at pushed
    cases pushed
    rfl
  · have some : 0 < request.commands.length := by
      rw [asked]
      exact Nat.succ_pos _
    obtain ⟨taken, takes⟩ := Nat.exists_eq_succ_of_ne_zero
      (carrying.pressure.acceptCount_bounds some).1.ne'
    rw [takes, asked, List.take_succ_cons, List.map_cons] at ids
    cases results with
    | nil => cases ids
    | cons result others =>
      exact ⟨_, List.mem_append_right _ (List.mem_singleton_self _), rfl, soon_calm nowMs index _,
        result, List.mem_cons_self, (List.cons.inj ids).1⟩

/-- What a calm step owes a device that it has carried: an answer to the first command it has
queued, and what comes next behind what it has received. -/
structure Serviced (carried : Carrying Gen) (start : Server) (scope : ScopeId) (nowMs : Int)
    (received : Nat → List Change) (index : Nat) (d : SimDevice) : Prop where
  answers : ∀ entry rest, d.device.db.outbox = entry :: rest →
    Answers carried.inFlight nowMs index entry.id
  shows' : start.readable scope <+: received index ∨ Shows carried.inFlight nowMs
    (carried.server.readable scope) scope index (received index)

omit [Chance Gen] in
theorem Serviced.mono {later : Carrying Gen} {d : SimDevice}
    (serviced : Serviced carrying start scope nowMs received index d)
    (within : carrying.inFlight ⊆ later.inFlight)
    (goes : Server.GoesOn scope carrying.server later.server) :
    Serviced later start scope nowMs received index d where
  answers entry rest queued := (serviced.answers entry rest queued).mono within
  shows' := serviced.shows'.imp_right fun shown => shown.mono within goes.readable

/-- What a connected device asked. -/
theorem Sound.carriesAll_calm
    (sound : carrying.Sound start scope entity received writes issued nowMs old index)
    (enough : 1 + writes + issued.card ≤ Limits.seqMax) {d : SimDevice}
    {push : Option PushRequest} {pull : Option Wire.PullRequest}
    (asks : d.Asks scope (received index) push pull) (online : d.online = true)
    (ours : ∀ request ∈ push, ∀ command ∈ request.commands,
      Reflects command ∧ command.id ∈ issued)
    (read : received index <+: start.readable scope) {sent : Nat}
    (carried : carrying.carryAll .none nowMs index sent d.pending = some after) :
    carrying.inFlight ⊆ after.inFlight ∧ Server.GoesOn scope carrying.server after.server ∧
      (d.device.db.outbox = [] → after.server = carrying.server) ∧
      Serviced after start scope nowMs received index d := by
  obtain ⟨pulls, pushes⟩ := asks.connected online
  obtain ⟨pulling, rfl⟩ := Option.isSome_iff_exists.mp pulls
  obtain ⟨cursor, scopes, reached⟩ := asks.onward pulling rfl
  rw [asks.pending] at carried
  cases push with
  | none =>
    have idle : d.device.db.outbox = [] := by
      by_contra queued
      obtain ⟨_, impossible, -⟩ := pushes queued
      cases impossible
    simp only [Option.toList_none, Option.toList_some, List.map_nil, List.map_cons, List.nil_append,
      carryAll] at carried
    obtain ⟨last, pulled, same⟩ := Option.bind_eq_some_iff.mp carried
    cases same
    obtain ⟨server, within, shown⟩ := sound.pull_calm scopes reached read pulled
    refine ⟨within, by rw [server]; exact .refl _, fun _ => server, fun entry rest queued => ?_, ?_⟩
    · rw [idle] at queued
      cases queued
    · rw [server]
      exact shown
  | some request =>
    simp only [Option.toList_some, List.map_nil, List.map_cons, List.cons_append, List.nil_append,
      carryAll] at carried
    obtain ⟨middle, pushed, rest⟩ := Option.bind_eq_some_iff.mp carried
    obtain ⟨last, pulled, same⟩ := Option.bind_eq_some_iff.mp rest
    cases same
    obtain ⟨within, goes, unasked, answered⟩ := sound.push_calm enough (ours request rfl) pushed
    obtain ⟨between, found, sound'⟩ := sound.carries_push FaultRates.none_prompt enough
      (ours request rfl) (sent + 1)
    rw [pushed] at found
    cases found
    obtain ⟨server, within', shown⟩ := sound'.pull_calm scopes reached read pulled
    have first := asks.first request rfl
    refine ⟨List.Subset.trans within within', by rw [server]; exact goes, fun idle => ?_,
      fun entry rest queued => ?_, ?_⟩
    · rw [idle] at first
      rw [server, unasked (List.prefix_nil.mp first)]
    · obtain ⟨_, same, some⟩ := pushes (by rw [queued]; exact List.cons_ne_nil _ _)
      cases same
      cases commands : request.commands with
      | nil => exact absurd commands some
      | cons command others =>
        rw [commands, queued, List.map_cons] at first
        obtain ⟨rfl, -⟩ := List.cons_prefix_cons.mp first
        exact (answered entry.command others commands).mono within'
    · rw [server]
      exact shown

/-- What every device asked. -/
theorem Sound.carriesDevices_calm
    (sound : carrying.Sound start scope entity received writes issued nowMs old index)
    (enough : 1 + writes + issued.card ≤ Limits.seqMax) {devices : List SimDevice}
    (ready : ∀ offset d, devices[offset]? = some d → d.online = true ∧
      received (index + offset) <+: start.readable scope ∧ ∃ push pull,
        d.Asks scope (received (index + offset)) push pull ∧
        ∀ request ∈ push, ∀ command ∈ request.commands, Reflects command ∧ command.id ∈ issued)
    (carried : carrying.carryDevices .none nowMs index devices = some after) :
    carrying.inFlight ⊆ after.inFlight ∧ Server.GoesOn scope carrying.server after.server ∧
      ((∀ d ∈ devices, d.device.db.outbox = []) → after.server = carrying.server) ∧
      ∀ offset d, devices[offset]? = some d →
        Serviced after start scope nowMs received (index + offset) d := by
  induction devices generalizing index carrying with
  | nil =>
    cases carried
    exact ⟨List.Subset.refl _, .refl _, fun _ => rfl, fun _ _ found => by cases found⟩
  | cons d rest ih =>
    obtain ⟨online, read, push, pull, asks, ours⟩ := ready 0 d rfl
    rw [carryDevices] at carried
    obtain ⟨middle, first, others⟩ := Option.bind_eq_some_iff.mp carried
    obtain ⟨within, goes, idle, serviced⟩ :=
      sound.carriesAll_calm enough asks online ours read first
    obtain ⟨between, found, sound'⟩ := sound.carriesAll FaultRates.none_prompt enough
      asks ours read d.requestsSent
    rw [first] at found
    cases found
    obtain ⟨within', goes', idle', serviced'⟩ := ih sound' (fun offset other found => by
      have := ready (offset + 1) other found
      rwa [Nat.add_right_comm index 1 offset]) others
    refine ⟨List.Subset.trans within within', goes.trans goes', fun none => ?_, fun offset other found => ?_⟩
    · rw [idle' fun other member => none other (List.mem_cons_of_mem _ member),
        idle (none d List.mem_cons_self)]
    · cases offset with
      | zero =>
        cases found
        exact serviced.mono within' goes'
      | succ offset =>
        have := serviced' offset other found
        rwa [Nat.add_right_comm index 1 offset] at this

end Calm

end Carrying

end Sim

end CredSync
