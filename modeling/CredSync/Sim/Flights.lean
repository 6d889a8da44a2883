import CredSync.Library.Timely
import CredSync.Sim.Turns

/-! The responses in flight. What a server answers is in flight for a step or two, may be
lost, doubled or spoiled on its way, and is handed over no earlier than what was answered
before it. So whatever arrives still fits the device it is for. -/

namespace CredSync

section Expecting

variable [Hashing] {scope : ScopeId} {log longer received received' : List Change} {batch : Batch}

theorem Expects.grown (expects : Expects log scope received batch) (grown : log <+: longer) :
    Expects longer scope received batch := by
  obtain ⟨before, page, pageOf, rest⟩ := expects
  exact ⟨before, page, pageOf.mono grown, rest⟩

/-- A batch ends within the log it was served from. -/
theorem Expects.within (expects : Expects log scope received batch)
    (ascending : KeyedLog.Ascending (fun change : Change => change.seq.get) log) :
    batch.nextCursor.get ≤ lastSeq log := by
  obtain ⟨before, page, pageOf, -, -, rfl | ⟨last, -, rfl⟩⟩ := expects
  · rw [pageOf.nextCursor]
    exact ascending.reached_mono (fun change _ => change.seq.lower) pageOf.within
  · change page.nextCursor.get ≤ _
    rw [pageOf.nextCursor]
    exact ascending.reached_mono (fun change _ => change.seq.lower) pageOf.within

/-- A device that has meanwhile gone on still expects a batch, unless it is an empty one from
behind where the device is now. -/
theorem Expects.forward (expects : Expects log scope received batch)
    (ascending : KeyedLog.Ascending (fun change : Change => change.seq.get) log)
    (forward : received <+: received') (read : received' <+: log)
    (fresh : batch.changes = [] → lastSeq received' ≤ batch.nextCursor.get) :
    Expects log scope received' batch := by
  obtain ⟨before, page, pageOf, asked, still, same⟩ := expects
  refine ⟨before, page, pageOf, asked.trans forward, fun nothing => ?_, same⟩
  rcases same with rfl | ⟨last, member, -⟩
  · have upTo := fresh nothing
    have within := pageOf.within
    rw [pageOf.nextCursor] at upTo
    rw [nothing, List.append_nil] at upTo within
    exact ascending.begins_of_reached (fun change _ => change.seq.lower) read within upTo
  · rw [nothing] at member
    cases member

end Expecting

namespace Sim

/-! ### What a response hands over -/

def Arrival.batches : Arrival → List Batch
  | .ok (.pull response) => response.batches
  | _ => []

def Arrival.results : Arrival → List CommandResult
  | .ok (.push response) => response.results
  | _ => []

/-- What may be handed to a device that has received these changes. -/
structure Delivers [Hashing] (server : Server) (scope : ScopeId) (received : List Change)
    (arrival : Arrival) : Prop where
  single : (Arrival.batches arrival).length ≤ 1
  expects : ∀ batch ∈ Arrival.batches arrival,
    Expects (server.readable scope) scope received batch
  recorded : ∀ result ∈ Arrival.results arrival, ∃ known,
    server.recorded result.id = some known ∧ known.result = result

section Delivering

variable [Hashing] {server later : Server} {scope : ScopeId} {entity : EntityName}
  {received received' : List Change} {arrival : Arrival}

/-- Nothing arrives where an error does. -/
theorem delivers_error (e : TransportError) : Delivers server scope received (.error e) :=
  ⟨Nat.zero_le _, nofun, nofun⟩

theorem Delivers.goesOn (delivers : Delivers server scope received arrival)
    (goes : Server.GoesOn scope server later) : Delivers later scope received arrival where
  single := delivers.single
  expects batch member := (delivers.expects batch member).grown goes.readable
  recorded result member := by
    obtain ⟨known, found, same⟩ := delivers.recorded result member
    exact ⟨known, goes.recorded _ _ found, same⟩

theorem Server.Serves.ascending (serves : server.Serves scope entity) :
    KeyedLog.Ascending (fun change : Change => change.seq.get) (server.readable scope) :=
  (serves.coherent.ascending_changes scope).sublist (server.readable_begins scope).sublist

theorem Delivers.forward (delivers : Delivers server scope received arrival)
    (serves : server.Serves scope entity) (forward : received <+: received')
    (read : received' <+: server.readable scope)
    (fresh : ∀ batch ∈ Arrival.batches arrival, batch.changes = [] →
      lastSeq received' ≤ batch.nextCursor.get) : Delivers server scope received' arrival :=
  { delivers with
    expects := fun batch member =>
      (delivers.expects batch member).forward serves.ascending forward read (fresh batch member) }

/-- What a call that queues nothing leaves of the outbox. -/
theorem outbox_dwindles {device : Device} (queues : device.Queues) (faults : Faults)
    {call : ClientCall} (silent : call.queues = none) :
    (device.call faults call).db.outbox.Sublist device.db.outbox := by
  have moves := (device.call_moves queues faults call).1
  rw [silent] at moves
  cases moves with
  | kept outbox _ _ => rw [outbox]
  | resolved answering resolves _ same =>
    rw [same, resolves.removes]
    exact List.filter_sublist

/-- What no response changes: nothing is queued, and a device that was online still is. -/
structure SimDevice.Settles (d after : SimDevice) : Prop where
  dwindles : after.device.db.outbox.Sublist d.device.db.outbox
  online : d.online = true → after.online = true

/-- A response of either kind, received under whatever verdict storage gives. -/
theorem SimDevice.Sound.receives {Gen : Type} [Chance Gen] {world : World Gen} {d : SimDevice}
    {index : Nat} (sound : d.Sound server world.scope world.entity index received)
    (serves : server.Serves world.scope world.entity)
    (delivers : Delivers server world.scope received arrival) (rng : Gen) :
    ∃ received', SimDevice.Leaves d (d.receive world arrival rng).1 server world.scope world.entity
        index received received' ∧ SimDevice.Settles d (d.receive world arrival rng).1 ∧
      (received' = received ∨ ∃ batch ∈ Arrival.batches arrival,
        lastSeq received' = batch.nextCursor.get) := by
  have nothing : ∃ received', SimDevice.Leaves d d server world.scope world.entity index received
      received' ∧ SimDevice.Settles d d ∧ (received' = received ∨
        ∃ batch ∈ Arrival.batches arrival, lastSeq received' = batch.nextCursor.get) :=
    ⟨received, ⟨sound, .refl _ d, List.prefix_rfl⟩, ⟨List.Sublist.refl _, id⟩, .inl rfl⟩
  have settles (call : ClientCall) (silent : call.queues = none) (verdict : StorageVerdict)
      (pendingKill : Bool) : SimDevice.Settles d { d with
        device := d.device.call { verdict := verdict } call
        pendingKill := pendingKill } :=
    ⟨outbox_dwindles sound.owes.queues _ silent, id⟩
  unfold SimDevice.receive
  split
  · rename_i response
    have single := delivers.single
    change response.batches.length ≤ 1 at single
    cases batches : response.batches with
    | nil => exact nothing
    | cons batch rest =>
      rw [batches, List.length_cons] at single
      cases List.length_eq_zero_iff.mp (Nat.le_zero.mp (Nat.le_of_succ_le_succ single))
      have member : batch ∈ Arrival.batches (.ok (.pull response)) := by
        change batch ∈ response.batches
        rw [batches]
        exact List.mem_singleton_self batch
      have expects := delivers.expects batch member
      refine SimDevice.exposed_of (fun after => ∃ received', SimDevice.Leaves d after server
        world.scope world.entity index received received' ∧ SimDevice.Settles d after ∧
        (received' = received ∨ ∃ batch ∈ Arrival.batches (.ok (.pull response)),
          lastSeq received' = batch.nextCursor.get))
        (fun verdict pendingKill => ?_) (fun after rng left => ?_) world.rates rng
      · obtain ⟨received', left, ends⟩ := sound.batch serves expects { verdict := verdict } pendingKill
        exact ⟨received', left, settles (.applyBatch batch) rfl verdict pendingKill,
          ends.imp_right fun same => ⟨batch, member, same⟩⟩
      · obtain ⟨received', left, kept, ends⟩ := left
        exact ⟨received', left.restarts rng, ⟨kept.dwindles, fun _ => rfl⟩, ends⟩
  · rename_i response
    have answered : SimDevice.Leaves d (d.exposed world.entity world.scope world.rates
        (.applyResults response) rng).1 server world.scope world.entity index received received ∧
          SimDevice.Settles d (d.exposed world.entity world.scope world.rates
            (.applyResults response) rng).1 :=
      SimDevice.exposed_of (fun after => SimDevice.Leaves d after server world.scope world.entity
        index received received ∧ SimDevice.Settles d after)
        (fun verdict pendingKill => ⟨sound.results delivers.recorded { verdict := verdict } pendingKill,
          settles (.applyResults response) rfl verdict pendingKill⟩)
        (fun _ rng left => ⟨left.1.restarts rng, ⟨left.2.dwindles, fun _ => rfl⟩⟩) world.rates rng
    exact ⟨received, answered.1, answered.2, .inl rfl⟩
  · exact nothing

end Delivering

/-! ### Everything in flight -/

/-- A response together with the device it is for. -/
def InFlight.addressed (flight : InFlight) : Nat × Arrival := (flight.device, flight.response)

/-- Of two responses to one device, the second does not say that there is nothing more from
behind where the first ends. -/
def Behind (first second : Nat × Arrival) : Prop :=
  first.1 = second.1 → ∀ batch ∈ Arrival.batches first.2, ∀ next ∈ Arrival.batches second.2,
    next.changes = [] → batch.nextCursor.get ≤ next.nextCursor.get

/-- Responses in flight, in the order in which they will be handed over. -/
structure Flying [Hashing] (server : Server) (scope : ScopeId) (received : Nat → List Change)
    (flights : List (Nat × Arrival)) : Prop where
  delivers : ∀ flight ∈ flights, Delivers server scope (received flight.1) flight.2
  behind : flights.Pairwise Behind

section Flying

variable [Hashing] {server later : Server} {scope : ScopeId} {entity : EntityName}
  {received : Nat → List Change} {flight : Nat × Arrival} {flights held fresh slow : List (Nat × Arrival)}

theorem flying_nil : Flying server scope received [] := ⟨nofun, .nil⟩

theorem Flying.goesOn (flying : Flying server scope received flights)
    (goes : Server.GoesOn scope server later) : Flying later scope received flights :=
  ⟨fun flight member => (flying.delivers flight member).goesOn goes, flying.behind⟩

/-- Once the first response has been handed over, the others still fit. -/
theorem Flying.delivered (flying : Flying server scope received (flight :: flights))
    (serves : server.Serves scope entity) {received' : List Change}
    (forward : received flight.1 <+: received') (read : received' <+: server.readable scope)
    (ends : received' = received flight.1 ∨ ∃ batch ∈ Arrival.batches flight.2,
      lastSeq received' = batch.nextCursor.get) :
    Flying server scope (Function.update received flight.1 received') flights := by
  obtain ⟨first, behind⟩ := List.pairwise_cons.mp flying.behind
  refine ⟨fun other member => ?_, behind⟩
  have delivers := flying.delivers other (List.mem_cons_of_mem _ member)
  by_cases same : other.1 = flight.1
  · rw [same, Function.update_self]
    rw [same] at delivers
    rcases ends with still | ⟨batch, inside, reached⟩
    · rw [still]
      exact delivers
    · refine delivers.forward serves forward read fun next nextInside nothing => ?_
      rw [reached]
      exact first other member same.symm batch inside next nextInside nothing
  · rwa [Function.update_of_ne same]

/-- A response just made: if it says that there is nothing more, there is nothing more. -/
def Fresh (server : Server) (scope : ScopeId) (arrival : Arrival) : Prop :=
  ∀ batch ∈ Arrival.batches arrival, batch.changes = [] →
    lastSeq (server.readable scope) ≤ batch.nextCursor.get

omit [Hashing] in
theorem fresh_error (e : TransportError) : Fresh server scope (.error e) := nofun

/-- Whatever was served before a response just made ends no further than it. -/
theorem Delivers.behind (serves : server.Serves scope entity) {before : List Change} {device : Nat}
    {arrival : Arrival} (delivers : Delivers server scope before arrival)
    (fresh : Fresh server scope flight.2) : Behind (device, arrival) flight :=
  fun _ batch inside next nextInside nothing =>
    ((delivers.expects batch inside).within serves.ascending).trans (fresh next nextInside nothing)

/-- Responses just made join what is in flight, or what is held back, as long as nothing held
back hands a batch to the same device. -/
theorem Flying.joined (flying : Flying server scope received (flights ++ held))
    (serves : server.Serves scope entity)
    (delivers : ∀ flight ∈ fresh ++ slow, Delivers server scope (received flight.1) flight.2)
    (made : ∀ flight ∈ fresh ++ slow, Fresh server scope flight.2)
    (apart : ∀ flight ∈ fresh, ∀ other ∈ held, Behind flight other) :
    Flying server scope received (flights ++ fresh ++ (held ++ slow)) := by
  have all : ∀ flight ∈ flights ++ fresh ++ (held ++ slow),
      Delivers server scope (received flight.1) flight.2 := by
    intro flight member
    simp only [List.mem_append] at member
    rcases member with (member | member) | (member | member)
    · exact flying.delivers flight (List.mem_append_left _ member)
    · exact delivers flight (List.mem_append_left _ member)
    · exact flying.delivers flight (List.mem_append_right _ member)
    · exact delivers flight (List.mem_append_right _ member)
  -- whatever comes before a response just made ends no further than it
  have before {earlier flight : Nat × Arrival} (known : earlier ∈ flights ++ fresh ++ (held ++ slow))
      (member : flight ∈ fresh ++ slow) : Behind earlier flight :=
    (all earlier known).behind serves (made flight member)
  obtain ⟨first, second, across⟩ := List.pairwise_append.mp flying.behind
  refine ⟨all, List.pairwise_append.mpr ⟨List.pairwise_append.mpr ⟨first, ?_, ?_⟩,
    List.pairwise_append.mpr ⟨second, ?_, ?_⟩, ?_⟩⟩
  · refine List.pairwise_of_forall_mem_list fun earlier known flight member => ?_
    exact before (by simp [known]) (List.mem_append_left _ member)
  · exact fun earlier known flight member => before (by simp [known]) (List.mem_append_left _ member)
  · refine List.pairwise_of_forall_mem_list fun earlier known flight member => ?_
    exact before (by simp [known]) (List.mem_append_right _ member)
  · exact fun earlier known flight member => before (by simp [known]) (List.mem_append_right _ member)
  · intro earlier known flight member
    rcases List.mem_append.mp member with member | member
    · rcases List.mem_append.mp known with known | known
      · exact across earlier known flight member
      · exact apart earlier known flight member
    · exact before (List.mem_append_left _ known) (List.mem_append_right _ member)

end Flying

/-! ### Launching -/

/-- Latencies within which nothing is overtaken: a response is due by the next step, even when
it comes twice. -/
structure FaultRates.Prompt (rates : FaultRates) : Prop where
  positive : 0 < rates.latencyMs.1.toNat
  lower : rates.latencyMs.1.toNat + 500 ≤ stepMs
  upper : rates.latencyMs.2.toNat + 500 ≤ stepMs

theorem FaultRates.standing_prompt : FaultRates.standing.Prompt := ⟨by decide, by decide, by decide⟩

theorem FaultRates.none_prompt : FaultRates.none.Prompt := ⟨by decide, by decide, by decide⟩

namespace Carrying

variable {Gen : Type} [Chance Gen]

/-- What comes of one response: nothing, itself once or twice, or something held back. Some of
it may be spoiled. -/
structure Launched (nowMs : Int) (index : Nat) (response : WireResponse)
    (prompt slow : List InFlight) : Prop where
  addressed : ∀ flight ∈ prompt ++ slow, flight.device = index ∧
    (flight.response = .ok response ∨ ∃ e, flight.response = .error e)
  soon : ∀ flight ∈ prompt, nowMs < flight.deliverAtMs ∧ flight.deliverAtMs ≤ nowMs + stepMs

theorem launch_eq {rates : FaultRates} (punctual : rates.Prompt) (nowMs : Int) (index : Nat)
    (fault : Option Fault) (response : WireResponse) (carrying : Carrying Gen) :
    ∃ prompt slow rng, launch rates nowMs index fault response carrying = { carrying with
        rng := rng
        inFlight := carrying.inFlight ++ prompt
        held := carrying.held ++ slow } ∧ Launched nowMs index response prompt slow := by
  have kind : spoil fault response = .ok response ∨ ∃ e, spoil fault response = .error e := by
    unfold spoil
    split
    · exact .inr ⟨_, rfl⟩
    · exact .inr ⟨_, rfl⟩
    · exact .inl rfl
  obtain ⟨positive, lower, upper⟩ := punctual
  have step : stepMs = 60000 := rfl
  have drawn := @Chance.range_bounds _ _ rates.latencyMs.1 rates.latencyMs.2 (by omega) carrying.rng
  unfold launch
  generalize Chance.range rates.latencyMs.1 rates.latencyMs.2 carrying.rng = latency at *
  generalize spoil fault response = arrival at *
  set flight : InFlight := ⟨index, nowMs + latency.1.toNat, arrival⟩
  have due : nowMs < flight.deliverAtMs ∧ flight.deliverAtMs + 500 ≤ nowMs + stepMs := by
    change nowMs < nowMs + latency.1.toNat ∧ nowMs + latency.1.toNat + 500 ≤ _
    omega
  have addressed : flight.device = index ∧
      (flight.response = .ok response ∨ ∃ e, flight.response = .error e) := ⟨rfl, kind⟩
  simp only
  split
  · have drawn' := @Chance.range_bounds _ _ 1 500 (by decide) latency.2
    generalize Chance.range 1 500 latency.2 = later at *
    have most : later.1.toNat ≤ 500 := drawn'.2
    refine ⟨[{ flight with deliverAtMs := flight.deliverAtMs + later.1.toNat }, flight], [], later.2,
      by rw [List.append_nil], ⟨?_, ?_⟩⟩
    · simpa using addressed
    · intro other member
      rcases List.mem_cons.mp member with rfl | member
      · change nowMs < flight.deliverAtMs + later.1.toNat ∧ flight.deliverAtMs + later.1.toNat ≤ _
        omega
      · cases List.mem_singleton.mp member
        omega
  · refine ⟨[], [flight], latency.2, by rw [List.append_nil], ⟨by simpa using addressed, nofun⟩⟩
  · refine ⟨[flight], [], latency.2, by rw [List.append_nil], ⟨by simpa using addressed, ?_⟩⟩
    intro other member
    cases List.mem_singleton.mp member
    omega

end Carrying

/-! ### Carrying -/

section Pushing

variable {Gen : Type} [Chance Gen] [Hashing] {server : Server} {scope : ScopeId}
  {entity : EntityName} {writes : Nat} {issued : Finset CommandId}

/-- Every command of a push is answered as it is recorded from then on. -/
theorem Server.Serves.pushes (serves : server.Serves scope entity)
    (room : server.Room writes issued) (enough : 1 + writes + issued.card ≤ Limits.seqMax)
    {commands : List Command} (ours : ∀ command ∈ commands, Reflects command ∧ command.id ∈ issued)
    (rng : Gen) : ∃ results after rng', Server.pushPrefix commands server rng =
        some (results, after, rng') ∧
      after.Serves scope entity ∧ Server.GoesOn scope server after ∧ after.Room writes issued ∧
      results.map (·.id) = commands.map Command.id ∧
      ∀ result ∈ results, ∃ known, after.recorded result.id = some known ∧ known.result = result := by
  induction commands generalizing server rng with
  | nil => exact ⟨[], server, rng, rfl, serves, .refl server, room, rfl, nofun⟩
  | cons command rest ih =>
    obtain ⟨reflects, issues⟩ := ours command List.mem_cons_self
    obtain ⟨result, middle, rng', answered, serves', goes, room', named, known, found, same⟩ :
        ∃ result middle rng', server.answerCommand command rng = some (result, middle, rng') ∧
          middle.Serves scope entity ∧ Server.GoesOn scope server middle ∧
          middle.Room writes issued ∧ result.id = command.id ∧
          ∃ known, middle.recorded command.id = some known ∧ known.result = result := by
      unfold Server.answerCommand
      generalize server.roll command rng = rolled
      obtain ⟨result, middle, applied, room'⟩ :=
        serves.answers room enough reflects issues rolled.1.toNat
      obtain ⟨serves', goes, named, recorded⟩ := serves.applies reflects applied
      exact ⟨result, middle, rolled.2, by simp only [applied, Option.map_some], serves', goes, room',
        named, recorded⟩
    obtain ⟨results, after, rng'', pushed, serves'', goes', room'', ids, recorded⟩ :=
      ih serves' room' (fun other member => ours other (List.mem_cons_of_mem _ member)) rng'
    refine ⟨result :: results, after, rng'', ?_, serves'', goes.trans goes', room'', ?_, ?_⟩
    · simp only [Server.pushPrefix, answered, Option.bind_some, pushed, Option.map_some]
    · rw [List.map_cons, List.map_cons, named, ids]
    · intro other member
      rcases List.mem_cons.mp member with rfl | member
      · rw [named]
        exact ⟨known, goes'.recorded _ _ found, same⟩
      · exact recorded other member

end Pushing

namespace Carrying

section Sound

variable {Gen : Type} [Chance Gen] [Hashing]

/-- What carrying keeps. Of the pulls held back none is of a device at `next` or behind it. -/
structure Sound (carrying : Carrying Gen) (start : Server) (scope : ScopeId) (entity : EntityName)
    (received : Nat → List Change) (writes : Nat) (issued : Finset CommandId) (nowMs : Int)
    (old : List InFlight) (next : Nat) : Prop where
  serves : carrying.server.Serves scope entity
  goes : Server.GoesOn scope start carrying.server
  room : carrying.server.Room writes issued
  flying : Flying carrying.server scope received
    ((carrying.inFlight ++ carrying.held).map InFlight.addressed)
  apart : ∀ flight ∈ carrying.held, next ≤ flight.device → Arrival.batches flight.response = []
  soon : ∃ prompt, carrying.inFlight = old ++ prompt ∧
    ∀ flight ∈ prompt, nowMs < flight.deliverAtMs ∧ flight.deliverAtMs ≤ nowMs + stepMs

variable {carrying : Carrying Gen} {start : Server} {scope : ScopeId} {entity : EntityName}
  {received : Nat → List Change} {writes : Nat} {issued : Finset CommandId} {nowMs : Int}
  {old : List InFlight} {index next : Nat} {rates : FaultRates}

omit [Chance Gen] in
theorem Sound.onward (sound : carrying.Sound start scope entity received writes issued nowMs old index)
    (onward : index ≤ next) : carrying.Sound start scope entity received writes issued nowMs old next :=
  { sound with apart := fun flight member beyond => sound.apart flight member (onward.trans beyond) }

omit [Chance Gen] in
/-- Only the server, and what is in flight or held back, is of any concern. -/
theorem Sound.beside (sound : carrying.Sound start scope entity received writes issued nowMs old index)
    (rng : Gen) (pressure : Pressure) :
    Sound { carrying with rng := rng, pressure := pressure } start scope entity received writes
      issued nowMs old index :=
  { sound with }

omit [Chance Gen] in
theorem Sound.served (sound : carrying.Sound start scope entity received writes issued nowMs old index)
    {after : Server} (serves : after.Serves scope entity)
    (goes : Server.GoesOn scope carrying.server after) (room : after.Room writes issued)
    (rng : Gen) (pressure : Pressure) :
    Sound { carrying with server := after, rng := rng, pressure := pressure } start scope entity
      received writes issued nowMs old index where
  serves := serves
  goes := sound.goes.trans goes
  room := room
  flying := sound.flying.goesOn goes
  apart := sound.apart
  soon := sound.soon

/-- A response is launched that its device may be handed. -/
theorem Sound.launches
    (sound : carrying.Sound start scope entity received writes issued nowMs old index)
    (punctual : rates.Prompt) {response : WireResponse} (fault : Option Fault)
    (delivers : Delivers carrying.server scope (received index) (.ok response))
    (fresh : Fresh carrying.server scope (.ok response)) (onward : index ≤ next)
    (kept : next = index → Arrival.batches (.ok response) = []) :
    (launch rates nowMs index fault response carrying).Sound start scope entity received writes
      issued nowMs old next := by
  obtain ⟨prompt, slow, rng, launched, addressed, soon⟩ :=
    launch_eq punctual nowMs index fault response carrying
  rw [launched]
  have carries : ∀ flight ∈ (prompt ++ slow).map InFlight.addressed,
      flight.1 = index ∧ Delivers carrying.server scope (received flight.1) flight.2 ∧
        Fresh carrying.server scope flight.2 := by
    intro flight member
    obtain ⟨flight, inside, rfl⟩ := List.mem_map.mp member
    obtain ⟨same, whole | ⟨e, spoiled⟩⟩ := addressed flight inside
    · rw [InFlight.addressed, same, whole]
      exact ⟨rfl, delivers, fresh⟩
    · rw [InFlight.addressed, same, spoiled]
      exact ⟨rfl, delivers_error e, fresh_error e⟩
  rw [List.map_append] at carries
  have flying := sound.flying
  rw [List.map_append] at flying
  refine ⟨sound.serves, sound.goes, sound.room, ?_, fun flight member beyond => ?_, ?_⟩
  · simp only [List.map_append]
    refine flying.joined sound.serves (fun flight member => (carries flight member).2.1)
      (fun flight member => (carries flight member).2.2) fun flight member other held same => ?_
    -- what is held back for the same device hands over no batch
    obtain ⟨waiting, inside, rfl⟩ := List.mem_map.mp held
    have none := sound.apart waiting inside
      ((carries flight (List.mem_append_left _ member)).1 ▸ same.le)
    intro batch _ next nextInside
    rw [InFlight.addressed, none] at nextInside
    cases nextInside
  · rcases List.mem_append.mp member with member | member
    · exact sound.apart flight member (onward.trans beyond)
    · obtain ⟨same, whole | ⟨e, spoiled⟩⟩ := addressed flight (List.mem_append_right _ member)
      · rw [whole]
        exact kept (le_antisymm (same ▸ beyond) onward)
      · rw [spoiled]
        rfl
  · obtain ⟨before, whole, bounds⟩ := sound.soon
    refine ⟨before ++ prompt, by rw [whole, List.append_assoc], fun flight member => ?_⟩
    rcases List.mem_append.mp member with member | member
    · exact bounds flight member
    · exact soon flight member

omit [Chance Gen] [Hashing] in
theorem mem_repeatLastResult {results : List CommandResult} {result : CommandResult}
    (member : result ∈ repeatLastResult results) : result ∈ results := by
  rcases List.mem_append.mp member with member | member
  · exact member
  · exact List.mem_of_getLast? (Option.mem_toList.mp member)

omit [Chance Gen] [Hashing] in
/-- What is handed over for one scope, as it was served or with its last change repeated. -/
theorem repeatLastChange_singleton (page : Batch) :
    repeatLastChange [page] = [page] ∨ ∃ last ∈ page.changes,
      repeatLastChange [page] = [{ page with changes := page.changes ++ [last] }] := by
  unfold repeatLastChange
  split
  · rename_i last found
    exact .inr ⟨last, List.mem_of_getLast? found, rfl⟩
  · exact .inl rfl

/-- A pull from where the device is. -/
theorem Sound.carries_pull
    (sound : carrying.Sound start scope entity received writes issued nowMs old index)
    (punctual : rates.Prompt) {request : Wire.PullRequest} {cursor : Cursor}
    (asks : request.scopes = [⟨scope, cursor⟩]) (reached : cursor.get = lastSeq (received index))
    (read : received index <+: start.readable scope) (sent : Nat) :
    ∃ after, carrying.carry rates nowMs index sent (.pull request) = some after ∧
      after.Sound start scope entity received writes issued nowMs old (index + 1) := by
  unfold carry
  split
  · rename_i rng _
    exact ⟨_, rfl, (sound.beside rng carrying.pressure).onward (Nat.le_succ index)⟩
  · rename_i fault rng _ _
    generalize Chance.chance rates.protocolViolation rng = violated
    obtain ⟨pageOf, finished⟩ := sound.serves.page (read.trans sound.goes.readable) reached
      (show 0 < pullLimit by decide) carrying.pressure.budgetBytes
    have served : carrying.server.pull request.scopes pullLimit carrying.pressure.budgetBytes =
        [carrying.server.pullScope ⟨scope, cursor⟩ pullLimit carrying.pressure.budgetBytes] := by
      rw [asks]
      rfl
    simp only [served]
    generalize carrying.server.pullScope ⟨scope, cursor⟩ pullLimit carrying.pressure.budgetBytes =
      page at *
    have handed : ∃ batch, (if violated.1 then repeatLastChange [page] else [page]) = [batch] ∧
        (batch = page ∨ ∃ last ∈ page.changes,
          batch = { page with changes := page.changes ++ [last] }) := by
      cases violated.1 with
      | false => exact ⟨page, rfl, .inl rfl⟩
      | true =>
        rcases repeatLastChange_singleton page with same | ⟨last, member, repeated⟩
        · exact ⟨page, same, .inl rfl⟩
        · exact ⟨_, repeated, .inr ⟨last, member, rfl⟩⟩
    obtain ⟨batch, whole, kind⟩ := handed
    rw [whole]
    have delivers : Delivers carrying.server scope (received index)
        (.ok (.pull ⟨request.protocol, [batch]⟩)) := by
      refine ⟨le_rfl, fun other member => ?_, nofun⟩
      cases List.mem_singleton.mp member
      exact ⟨received index, page, pageOf, List.prefix_rfl, fun _ => List.prefix_rfl, kind⟩
    have fresh : Fresh carrying.server scope (.ok (.pull ⟨request.protocol, [batch]⟩)) := by
      intro other member nothing
      cases List.mem_singleton.mp member
      rcases kind with rfl | ⟨last, _, rfl⟩
      · rw [pageOf.nextCursor, nothing, List.append_nil, finished nothing]
      · exact absurd nothing (List.append_ne_nil_of_right_ne_nil _ (List.cons_ne_nil _ _))
    exact ⟨_, rfl, (sound.beside violated.2 carrying.pressure).launches punctual fault delivers fresh
      (Nat.le_succ index) fun same => absurd same (Nat.succ_ne_self index)⟩

/-- A push of commands that may be asked about. -/
theorem Sound.carries_push
    (sound : carrying.Sound start scope entity received writes issued nowMs old index)
    (punctual : rates.Prompt) (enough : 1 + writes + issued.card ≤ Limits.seqMax)
    {request : PushRequest}
    (ours : ∀ command ∈ request.commands, Reflects command ∧ command.id ∈ issued) (sent : Nat) :
    ∃ after, carrying.carry rates nowMs index sent (.push request) = some after ∧
      after.Sound start scope entity received writes issued nowMs old index := by
  unfold carry
  split
  · rename_i rng _
    exact ⟨_, rfl, sound.beside rng carrying.pressure⟩
  · rename_i fault rng _ _
    generalize Chance.chance rates.protocolViolation rng = violated
    simp only
    generalize carrying.pressure.acceptCount request.commands.length = accepted
    have first : ∀ command ∈ request.commands.take accepted.1, Reflects command ∧ command.id ∈ issued :=
      fun command member => ours command (List.mem_of_mem_take member)
    obtain ⟨results, after, rng', pushed, serves, goes, room, -, recorded⟩ :=
      sound.serves.pushes sound.room enough first violated.2
    rw [pushed]
    have delivers : Delivers after scope (received index) (.ok (.push ⟨request.protocol,
        if violated.1 then repeatLastResult results else results⟩)) := by
      refine ⟨Nat.zero_le _, nofun, fun result member => recorded result ?_⟩
      change result ∈ (if violated.1 then repeatLastResult results else results) at member
      split at member
      · exact mem_repeatLastResult member
      · exact member
    exact ⟨_, rfl, (sound.served serves goes room rng' accepted.2).launches punctual fault delivers
      nofun le_rfl fun _ => rfl⟩

/-- What a turn left to be carried, from one device. -/
theorem Sound.carriesAll
    (sound : carrying.Sound start scope entity received writes issued nowMs old index)
    (punctual : rates.Prompt) (enough : 1 + writes + issued.card ≤ Limits.seqMax) {d : SimDevice}
    {push : Option PushRequest} {pull : Option Wire.PullRequest}
    (asks : d.Asks scope (received index) push pull)
    (ours : ∀ request ∈ push, ∀ command ∈ request.commands,
      Reflects command ∧ command.id ∈ issued)
    (read : received index <+: start.readable scope) (sent : Nat) :
    ∃ after, carrying.carryAll rates nowMs index sent d.pending = some after ∧
      after.Sound start scope entity received writes issued nowMs old (index + 1) := by
  have pulled (carrying : Carrying Gen) (sent : Nat)
      (sound : carrying.Sound start scope entity received writes issued nowMs old index) :
      ∃ after, carrying.carryAll rates nowMs index sent (pull.toList.map .pull) = some after ∧
        after.Sound start scope entity received writes issued nowMs old (index + 1) := by
    cases pull with
    | none => exact ⟨carrying, rfl, sound.onward (Nat.le_succ index)⟩
    | some request =>
      obtain ⟨cursor, scopes, reached⟩ := asks.onward request rfl
      obtain ⟨after, carried, sound'⟩ := sound.carries_pull punctual scopes reached read (sent + 1)
      exact ⟨after, by simp only [Option.toList_some, List.map_cons, List.map_nil, carryAll, carried,
        Option.bind_some], sound'⟩
  rw [asks.pending]
  cases push with
  | none => exact pulled carrying sent sound
  | some request =>
    obtain ⟨middle, carried, sound'⟩ :=
      sound.carries_push punctual enough (ours request rfl) (sent + 1)
    obtain ⟨after, rest, sound''⟩ := pulled middle (sent + 1) sound'
    refine ⟨after, ?_, sound''⟩
    simp only [Option.toList_some, List.map_cons, List.map_nil, List.cons_append, List.nil_append,
      carryAll, carried, Option.bind_some]
    exact rest

/-- What turns left to be carried, from every device. -/
theorem Sound.carriesDevices
    (sound : carrying.Sound start scope entity received writes issued nowMs old index)
    (punctual : rates.Prompt) (enough : 1 + writes + issued.card ≤ Limits.seqMax)
    {devices : List SimDevice}
    (ready : ∀ offset d, devices[offset]? = some d →
      received (index + offset) <+: start.readable scope ∧ ∃ push pull,
        d.Asks scope (received (index + offset)) push pull ∧
        ∀ request ∈ push, ∀ command ∈ request.commands, Reflects command ∧ command.id ∈ issued) :
    ∃ after, carrying.carryDevices rates nowMs index devices = some after ∧
      after.Sound start scope entity received writes issued nowMs old (index + devices.length) := by
  induction devices generalizing index carrying with
  | nil => exact ⟨carrying, rfl, sound⟩
  | cons d rest ih =>
    obtain ⟨read, push, pull, asks, ours⟩ := ready 0 d rfl
    obtain ⟨middle, carried, sound'⟩ :=
      sound.carriesAll punctual enough asks ours read d.requestsSent
    obtain ⟨after, others, sound''⟩ := ih sound' fun offset other found => by
      have := ready (offset + 1) other found
      rwa [Nat.add_right_comm index 1 offset]
    refine ⟨after, by rw [carryDevices, carried, Option.bind_some, others], ?_⟩
    rwa [List.length_cons, Nat.add_comm rest.length, ← Nat.add_assoc]

omit [Hashing] in
/-- What is held back comes behind what is due one step later. -/
theorem release_spec (nowMs : Int) (held : List InFlight) (rng : Gen) :
    (release nowMs held rng).1.map InFlight.addressed = held.map InFlight.addressed ∧
      ∀ flight ∈ (release nowMs held rng).1,
        nowMs + stepMs < flight.deliverAtMs ∧ flight.deliverAtMs ≤ nowMs + 2 * stepMs := by
  induction held generalizing rng with
  | nil => exact ⟨rfl, nofun⟩
  | cons flight rest ih =>
    obtain ⟨same, bounds⟩ := ih (Chance.range 1 900 rng).2
    refine ⟨congrArg (flight.addressed :: ·) same, fun other member => ?_⟩
    rcases List.mem_cons.mp member with rfl | member
    · have drawn := @Chance.range_bounds _ _ 1 900 (by decide) rng
      have least : 1 ≤ (Chance.range 1 900 rng).1.toNat := drawn.1
      have most : (Chance.range 1 900 rng).1.toNat ≤ 900 := drawn.2
      have step : stepMs = 60000 := rfl
      change _ < nowMs + stepMs + ((Chance.range 1 900 rng).1.toNat : Int) ∧
        nowMs + stepMs + ((Chance.range 1 900 rng).1.toNat : Int) ≤ _
      omega
    · exact bounds other member

end Sound

end Carrying

end Sim

end CredSync
