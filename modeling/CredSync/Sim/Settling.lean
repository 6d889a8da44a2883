import CredSync.Sim.Calm

/-! Settling. From wherever a run has left a world, enough calm steps drain every outbox,
commit every write and bring every device to the end of the log; and where a device has
caught up, it holds what the server holds. -/

namespace CredSync

/-! ### What storage keeps -/

namespace Db.Later

variable {scope : ScopeId} {earlier later : Db} {id : CommandId}

theorem settled (on : earlier.Later scope later) (settled : id ∈ Sim.Invariants.settled earlier) :
    id ∈ Sim.Invariants.settled later := by
  obtain ⟨record, member, rfl⟩ := List.mem_map.mp settled
  exact List.mem_map_of_mem (on.records record member)

/-- A command that is queued or resolved is one or the other ever after. -/
theorem known (on : earlier.Later scope later)
    (known : id ∈ Sim.Invariants.queued earlier ∨ id ∈ Sim.Invariants.settled earlier) :
    id ∈ Sim.Invariants.queued later ∨ id ∈ Sim.Invariants.settled later :=
  known.elim (on.unlost id) fun resolved => .inr (on.settled resolved)

theorem position_le (on : earlier.Later scope later) :
    (earlier.position scope).cursor.get ≤ (later.position scope).cursor.get := by
  cases stored : earlier.cursors.lookup scope with
  | none =>
    rw [Db.position, Db.stored, stored]
    exact Nat.zero_le _
  | some was =>
    obtain ⟨now, found, reached⟩ := on.cursor was stored
    rw [Db.position, Db.stored, stored, Db.position, Db.stored, found]
    exact reached

end Db.Later

namespace Sim

/-! ### What arrives -/

namespace World

section Arrivals

variable {Gen : Type} [Chance Gen] [Hashing] {world : World Gen} {received : Nat → List Change}
  {age : Nat} {due waiting : List InFlight} {flight : InFlight} {was d : SimDevice}

theorem deliver_here (found : world.devices[flight.device]? = some d) :
    (world.deliver flight).devices[flight.device]? =
      some (d.receive world flight.response world.rng).1 := by
  unfold World.deliver
  rw [found]
  exact List.getElem?_set_self (List.getElem?_eq_some_iff.mp found).1

/-- The moment when one of the responses that are due is handed over. -/
theorem Afloat.moment (afloat : world.Afloat received age (due ++ waiting)) (member : flight ∈ due)
    (before : world.devices[flight.device]? = some was)
    (after : (due.foldl World.deliver world).devices[flight.device]? = some d) :
    ∃ (middle : World Gen) (received' : Nat → List Change) (others : List InFlight) (now : SimDevice),
      middle.Afloat received' age (flight :: others) ∧ Handed world middle received received' ∧
      middle.devices[flight.device]? = some now ∧
      was.device.db.Later world.scope now.device.db ∧
      now.device.db.Later world.scope (now.receive middle flight.response middle.rng).1.device.db ∧
      (now.receive middle flight.response middle.rng).1.device.db.Later world.scope d.device.db := by
  obtain ⟨first, second, rfl⟩ := List.append_of_mem member
  rw [List.foldl_append, List.foldl_cons] at after
  rw [List.append_assoc] at afloat
  obtain ⟨received', afloat', handed⟩ := afloat.deliverAll
  set middle := first.foldl World.deliver world
  obtain ⟨now, there⟩ : ∃ now, middle.devices[flight.device]? = some now := by
    have inside := (List.getElem?_eq_some_iff.mp before).1
    rw [← handed.length] at inside
    exact ⟨_, List.getElem?_eq_getElem inside⟩
  have ahead : middle.Afloat received' age (flight :: (second ++ waiting)) := afloat'
  obtain ⟨_, afloat'', handed'⟩ := ahead.deliver
  obtain ⟨_, -, last⟩ := afloat''.deliverAll
  obtain ⟨devices, rng, rest⟩ := handed.rest
  obtain ⟨devices', rng', rest'⟩ := handed'.rest
  have scope : middle.scope = world.scope := by rw [rest]
  have scope' : (middle.deliver flight).scope = world.scope := by rw [rest', ← scope]
  have come := handed'.onward
  have finish := last.onward
  rw [scope] at come
  rw [scope'] at finish
  have at' {before after : World Gen} {was d : SimDevice}
      (onward : Onward world.scope before.databases after.databases)
      (here : before.devices[flight.device]? = some was)
      (there : after.devices[flight.device]? = some d) :
      was.device.db.Later world.scope d.device.db := by
    obtain ⟨db, found, on⟩ := onward flight.device d.device.db (by
      rw [databases, List.getElem?_map, there]
      rfl)
    rw [databases, List.getElem?_map, here] at found
    cases found
    exact on
  exact ⟨middle, received', second ++ waiting, now, ahead, handed, there,
    at' handed.onward before there, at' come there (deliver_here there),
    at' finish (deliver_here there) after⟩

/-- An answer that is due resolves its command. -/
theorem Afloat.answered (afloat : world.Afloat received age (due ++ waiting))
    (rates : world.rates = .none) (member : flight ∈ due) {result : CommandResult}
    (inside : result ∈ Arrival.results flight.response)
    (before : world.devices[flight.device]? = some was)
    (known : result.id ∈ Invariants.queued was.device.db ∨
      result.id ∈ Invariants.settled was.device.db)
    (after : (due.foldl World.deliver world).devices[flight.device]? = some d) :
    result.id ∈ Invariants.settled d.device.db := by
  obtain ⟨middle, received', others, now, afloat', handed, there, on, got, last⟩ :=
    afloat.moment member before after
  obtain ⟨devices, rng, rest⟩ := handed.rest
  obtain ⟨response, pushed⟩ : ∃ response, flight.response = .ok (.push response) := by
    cases kind : flight.response with
    | error e => rw [kind] at inside; cases inside
    | ok response =>
      rw [kind] at inside
      cases response with
      | push response => exact ⟨response, rfl⟩
      | _ => cases inside
  refine last.settled ?_
  rw [pushed] at inside ⊢
  have calm : middle.rates = .none := by
    rw [rest]
    exact rates
  have stored := (SimDevice.exposed_calm middle.entity middle.scope (.applyResults response) now
    middle.rng).1
  rw [← calm] at stored
  change result.id ∈ Invariants.settled (now.exposed middle.entity middle.scope middle.rates
    (.applyResults response) middle.rng).1.device.db
  rw [stored]
  have sound := afloat'.crew.sound flight.device now there
  have moves := (now.device.call_moves sound.owes.queues .none (.applyResults response)).1
  rcases on.known known with queued | settled
  · exact now.device.applyResults_settles sound.owes.queues inside queued
  · obtain ⟨record, recorded, same⟩ := List.mem_map.mp settled
    exact List.mem_map.mpr ⟨record, moves.records record recorded, same⟩

/-- A page that is due takes its device on. -/
theorem Afloat.shown (afloat : world.Afloat received age (due ++ waiting))
    (rates : world.rates = .none) (member : flight ∈ due) {page : Batch}
    (batches : Arrival.batches flight.response = [page]) {behind : List Change}
    (pageOf : PageOf (world.server.readable world.scope) world.scope behind page)
    (some : page.changes ≠ []) (read : behind <+: received flight.device)
    (before : world.devices[flight.device]? = .some was)
    (after : (due.foldl World.deliver world).devices[flight.device]? = .some d) :
    lastSeq behind < (d.device.db.position world.scope).cursor.get := by
  obtain ⟨middle, received', others, now, afloat', handed, there, on, got, last⟩ :=
    afloat.moment member before after
  obtain ⟨devices, rng, rest⟩ := handed.rest
  obtain ⟨server, scope, entity, calm⟩ : middle.server = world.server ∧ middle.scope = world.scope ∧
      middle.entity = world.entity ∧ middle.rates = .none := by
    rw [rest]
    exact ⟨rfl, rfl, rfl, rates⟩
  have serves := afloat'.serves
  have sound := afloat'.crew.sound flight.device now there
  rw [server, scope, entity] at sound serves
  have ascending := serves.ascending
  have inside := ascending.sublist pageOf.within.sublist
  have further := (KeyedLog.Ascending.append_iff.mp inside).2.2
  -- whatever comes behind these changes is at a higher position
  have above {longer : List Change} (onward : behind <+: longer) (more : longer ≠ behind)
      (within : longer <+: world.server.readable world.scope) : lastSeq behind < lastSeq longer := by
    obtain ⟨rest, rfl⟩ := onward
    have beyond := (KeyedLog.Ascending.append_iff.mp (ascending.sublist within.sublist)).2.2
    rw [lastSeq, lastSeq, KeyedLog.reached_append]
    rcases KeyedLog.reached_eq_low_or_mem (fun change : Change => change.seq.get)
        (KeyedLog.reached (fun change : Change => change.seq.get) 0 behind) rest with
      ⟨nothing, -⟩ | ⟨change, member, same⟩
    · rw [nothing, List.append_nil] at more
      exact absurd rfl more
    · rw [same]
      rcases KeyedLog.reached_eq_low_or_mem (fun change : Change => change.seq.get) 0 behind with
        ⟨-, zero⟩ | ⟨earlier, known, reached⟩
      · rw [zero]
        exact change.seq.lower
      · rw [reached]
        exact beyond earlier known change member
  by_cases same : received' flight.device = behind
  · -- the device is where the page was asked for
    obtain ⟨response, pulled⟩ : ∃ response, flight.response = .ok (.pull response) := by
      cases kind : flight.response with
      | error e => rw [kind] at batches; cases batches
      | ok response =>
        rw [kind] at batches
        cases response with
        | pull response => exact ⟨response, rfl⟩
        | _ => cases batches
    rw [pulled] at batches got last
    change response.batches = [page] at batches
    rw [same] at sound
    have advanced := sound.reads.advances sound.mirrors (fun change member => by
        obtain ⟨seq, entityId, rfl⟩ := serves.upserted ((world.server.readable_begins _).subset member)
        rw [sound.registered]
        change (Registry.reflecting world.entity world.scope).classOf world.entity ≠ _
        rw [Registry.reflecting_class]
        decide)
      (fun change member => by
        obtain ⟨seq, entityId, rfl⟩ := serves.upserted ((world.server.readable_begins _).subset member)
        rfl) ascending pageOf
    have stored := (SimDevice.exposed_calm middle.entity middle.scope (.applyBatch page) now
      middle.rng).1
    rw [← calm] at stored
    have received : (now.receive middle (.ok (.pull response)) middle.rng).1.device.db =
        (now.device.applyBatch .none page).2.db := by
      simp only [SimDevice.receive, batches, SimDevice.applyPulled]
      exact stored
    rw [received] at last
    refine lt_of_lt_of_le ?_ last.position_le
    rw [Db.position, Db.stored, advanced]
    change _ < page.nextCursor.get
    rw [pageOf.nextCursor]
    exact above (List.prefix_append _ _) (fun none => some (List.append_right_eq_self.mp none))
      pageOf.within
  · -- the device is already further on
    have moved := above (read.trans (handed.forward flight.device)) same sound.reads.read
    rw [← sound.reads.holds.cursor] at moved
    exact lt_of_lt_of_le moved (got.position_le.trans last.position_le)

end Arrivals

/-! ### A calm step -/

section Steps

variable {Gen : Type} [Chance Gen] [Hashing] {world after : World Gen}
  {received received' : Nat → List Change} {age : Nat}

/-- What a calm step does, and what it leaves on its way. -/
structure Progress (world after : World Gen) (received received' : Nat → List Change) : Prop where
  calm : after.Calm
  scope : after.scope = world.scope
  entity : after.entity = world.entity
  registry : after.registry = world.registry
  length : after.devices.length = world.devices.length
  goes : Server.GoesOn world.scope world.server.advanceCommits after.server
  idle : (∀ d ∈ world.devices, d.device.db.outbox = []) →
    after.server = world.server.advanceCommits
  forward : ∀ index, received index <+: received' index
  dwindles : ∀ (index : Nat) d, after.devices[index]? = some d → ∃ was,
    world.devices[index]? = some was ∧ d.device.db.outbox.Sublist was.device.db.outbox
  answers : ∀ (index : Nat) was entry rest, world.devices[index]? = some was →
    was.device.db.outbox = entry :: rest → Answers after.inFlight after.nowMs index entry.id
  shows' : ∀ (index : Nat) was, world.devices[index]? = some was →
    world.server.advanceCommits.readable world.scope <+: received index ∨
      Shows after.inFlight after.nowMs (after.server.readable world.scope) world.scope index
        (received index)
  answered : ∀ (index : Nat) was d id, Answers world.inFlight world.nowMs index id →
    world.devices[index]? = some was → after.devices[index]? = some d →
    id ∈ Invariants.queued was.device.db → id ∉ Invariants.queued d.device.db
  shown : ∀ (index : Nat) was behind, world.devices[index]? = some was →
    Shows world.inFlight world.nowMs (world.server.readable world.scope) world.scope index behind →
    behind <+: received index → lastSeq behind < lastSeq (received' index)

/-- What has been answered by the time that responses are handed over. -/
structure Answered (world answered : World Gen) (received : Nat → List Change) : Prop where
  databases : answered.databases = world.databases
  online : ∀ d ∈ answered.devices, d.online = true
  goes : Server.GoesOn world.scope world.server.advanceCommits answered.server
  idle : (∀ d ∈ world.devices, d.device.db.outbox = []) →
    answered.server = world.server.advanceCommits
  answers : ∀ (index : Nat) was entry rest, world.devices[index]? = some was →
    was.device.db.outbox = entry :: rest →
      Answers answered.inFlight answered.nowMs index entry.id
  shows' : ∀ (index : Nat) was, world.devices[index]? = some was →
    world.server.advanceCommits.readable world.scope <+: received index ∨
      Shows answered.inFlight answered.nowMs (answered.server.readable world.scope) world.scope
        index (received index)

/-- Everybody's first command is answered, and everybody is shown what comes next. -/
theorem Sound.answers_calm (sound : world.Sound received age) (calm : world.Calm)
    (short : age + 1 < 2 ^ 32) : ∃ answered due waiting,
      world.step = some answered.deliverDue.check ∧
        Arriving world answered received age due waiting ∧ Answered world answered received := by
  obtain ⟨turned, stepped, turns, databases, online, committed⟩ := sound.turns_calm calm short
  obtain ⟨answered, due, waiting, carried, arriving⟩ := sound.arrives turns (by omega)
  refine ⟨answered, due, waiting, by rw [stepped, carried]; rfl, arriving, ?_⟩
  obtain ⟨devices, server, rng, pressure, rfl⟩ := turns.rest
  obtain ⟨carrying, all, rfl⟩ := Option.map_eq_some_iff.mp carried
  change Carrying.carryDevices world.rates _ 0 devices _ = _ at all
  rw [calm.rates] at all
  obtain ⟨-, goes, idle, serviced⟩ := (boards turns.serves
    (sound.afloat.flying.goesOn turns.goes) turns.room).carriesDevices_calm (room_enough (by omega))
      (fun offset d found => ⟨online d (List.mem_of_getElem? found),
        asked turns.crew turns.asks offset d found⟩) all
  change server = world.server.advanceCommits at committed
  subst committed
  -- a device as it was, and after its turn
  have turn (index : Nat) (was : SimDevice) (found : world.devices[index]? = some was) :
      ∃ d, devices[index]? = some d ∧ d.device.db = was.device.db := by
    have same := congrArg (·[index]?) databases
    simp only [World.databases, List.getElem?_map, found] at same
    exact Option.map_eq_some_iff.mp same
  have within : carrying.inFlight ⊆ carrying.inFlight ++
      (Carrying.release (world.nowMs + stepMs) carrying.held carrying.rng).1 :=
    List.subset_append_left _ _
  refine ⟨?_, fun d member => ?_, goes, fun none => idle fun d member => ?_,
    fun index was entry rest found queued => ?_, fun index was found => ?_⟩
  · rw [← databases]
    simp only [World.databases, List.map_map]
    rfl
  · obtain ⟨d, inside, rfl⟩ := List.mem_map.mp member
    exact online d inside
  · have inside : d.device.db ∈ world.databases := by
      rw [← databases]
      exact List.mem_map_of_mem member
    obtain ⟨was, there, same⟩ := List.mem_map.mp inside
    rw [← same]
    exact none was there
  · obtain ⟨d, there, same⟩ := turn index was found
    have served := serviced index d there
    rw [Nat.zero_add] at served
    exact (served.answers entry rest (by rw [same]; exact queued)).mono within
  · obtain ⟨d, there, -⟩ := turn index was found
    have served := serviced index d there
    rw [Nat.zero_add] at served
    exact served.shows'.imp_right fun shown => shown.mono within List.prefix_rfl

omit [Chance Gen] [Hashing] in
/-- Worlds with the same databases have them at the same devices. -/
theorem same_db {other : World Gen} (same : world.databases = other.databases) {index : Nat}
    {d : SimDevice} (found : world.devices[index]? = some d) :
    ∃ was, other.devices[index]? = some was ∧ was.device.db = d.device.db := by
  have same := congrArg (·[index]?) same
  simp only [databases, List.getElem?_map, found] at same
  exact Option.map_eq_some_iff.mp same.symm

/-- A calm step ends. -/
theorem Sound.step_calm (sound : world.Sound received age) (calm : world.Calm)
    (short : age + 1 < 2 ^ 32) : ∃ after received', world.step = some after ∧
      after.Sound received' age ∧ Progress world after received received' := by
  obtain ⟨answered, due, waiting, stepped, arriving, promised⟩ := sound.answers_calm calm short
  obtain ⟨received', invariants, checked, handed, sound'⟩ := sound.ends arriving
  refine ⟨_, received', stepped, sound', ?_⟩
  rw [checked] at sound' ⊢
  have afloat := arriving.afloat
  obtain ⟨rates, scope, nowMs⟩ : answered.rates = world.rates ∧ answered.scope = world.scope ∧
      answered.nowMs = world.nowMs + stepMs := by
    obtain ⟨devices, server, rng, pressure, inFlight, rfl⟩ := arriving.rest
    exact ⟨rfl, rfl, rfl⟩
  set opened : World Gen := { answered with inFlight := waiting }
  set final : World Gen := due.foldl World.deliver opened
  obtain ⟨devices, rng, rest⟩ := handed.rest
  have kept : final.rates = world.rates ∧ final.quiet = world.quiet ∧ final.scope = world.scope ∧
      final.entity = world.entity ∧ final.registry = world.registry ∧ final.inFlight = waiting ∧
      final.server = answered.server ∧ final.nowMs = answered.nowMs := by
    obtain ⟨devices, server, rng, pressure, inFlight, rfl⟩ := arriving.rest
    rw [rest]
    exact ⟨rfl, rfl, rfl, rfl, rfl, rfl, rfl, rfl⟩
  obtain ⟨rates', quiet, scope', entity, registry, inFlight, server, nowMs'⟩ := kept
  -- a device when responses are handed over, and as it was
  have before (index : Nat) (d : SimDevice) (found : opened.devices[index]? = some d) :=
    same_db promised.databases found
  have next (index : Nat) (was : SimDevice) (found : world.devices[index]? = some was) :=
    same_db promised.databases.symm found
  have length : final.devices.length = world.devices.length := by
    have same := congrArg List.length promised.databases
    simp only [World.databases, List.length_map] at same
    exact handed.length.trans same
  -- what is due later is still on its way
  have later {flight : InFlight} (member : flight ∈ answered.inFlight)
      (soon : flight.Soon answered.nowMs) : flight ∈ final.inFlight := by
    rw [inFlight]
    rw [arriving.whole] at member
    refine (List.mem_append.mp member).resolve_left fun early => ?_
    rw [arriving.dues] at early
    have due := of_decide_eq_true (List.mem_filter.mp early).2
    exact absurd soon.later (not_lt.mpr due)
  -- what was on its way is due
  have ready {flight : InFlight} (member : flight ∈ world.inFlight)
      (soon : flight.Soon world.nowMs) : flight ∈ due := by
    rw [arriving.dues]
    exact List.mem_filter.mpr ⟨arriving.kept member, decide_eq_true (by rw [nowMs]; exact soon.due)⟩
  exact {
    calm := ⟨rates'.trans calm.rates, quiet.trans calm.quiet, fun d member => by
      obtain ⟨index, found⟩ := List.getElem?_of_mem member
      obtain ⟨was, there, settles⟩ := handed.settles index d found
      exact settles.online (promised.online was (List.mem_of_getElem? there))⟩
    scope := scope'
    entity := entity
    registry := registry
    length := length
    goes := by
      change Server.GoesOn _ _ final.server
      rw [server]
      exact promised.goes
    idle := fun none => server.trans (promised.idle none)
    forward := handed.forward
    dwindles := fun index d found => by
      obtain ⟨middle, there, settles⟩ := handed.settles index d found
      obtain ⟨was, here, same⟩ := before index middle there
      exact ⟨was, here, by rw [same]; exact settles.dwindles⟩
    answers := fun index was entry rest found queued => by
      obtain ⟨flight, member, mine, soon, result⟩ := promised.answers index was entry rest found queued
      exact ⟨flight, later member soon, mine, by change flight.Soon final.nowMs; rwa [nowMs'], result⟩
    shows' := fun index was found => by
      refine (promised.shows' index was found).imp_right fun shown => ?_
      obtain ⟨flight, member, mine, soon, page⟩ := shown
      refine ⟨flight, later member soon, mine, by change flight.Soon final.nowMs; rwa [nowMs'], ?_⟩
      change ∃ page, _ ∧ PageOf (final.server.readable _) _ _ page ∧ _
      rw [server]
      exact page
    answered := fun index was d id answers found there queued => by
      obtain ⟨flight, member, rfl, soon, result, inside, rfl⟩ := answers
      obtain ⟨here, at', same⟩ := next flight.device was found
      have resolved := afloat.answered (rates.trans calm.rates) (ready member soon) inside at'
        (.inl (by rw [same]; exact queued)) there
      intro still
      exact (sound'.afloat.crew.sound flight.device d there).owes.ledger.apart _ still resolved
    shown := fun index was behind found shows' read => by
      obtain ⟨flight, member, rfl, soon, page, batches, pageOf, some⟩ := shows'
      obtain ⟨here, at', -⟩ := next flight.device was found
      obtain ⟨d, there⟩ : ∃ d, final.devices[flight.device]? = .some d := by
        have inside := (List.getElem?_eq_some_iff.mp found).1
        rw [← length] at inside
        exact ⟨_, List.getElem?_eq_getElem inside⟩
      have grown : world.server.readable world.scope <+: opened.server.readable opened.scope := by
        change _ <+: answered.server.readable answered.scope
        rw [scope]
        exact sound.afloat.serves.commits.2.readable.trans promised.goes.readable
      have reached := afloat.shown (rates.trans calm.rates) (ready member soon) batches
        (by rw [show opened.scope = world.scope from scope] at grown ⊢; exact pageOf.mono grown) some
        read at' there
      have cursor := (sound'.afloat.crew.sound flight.device d there).reads.holds.cursor
      change (d.device.db.position final.scope).cursor.get = _ at cursor
      rw [scope'] at cursor
      rwa [show opened.scope = world.scope from scope, cursor] at reached }

end Steps

/-! ### Calm runs -/

section Runs

variable {Gen : Type} [Chance Gen] [Hashing] {world middle after : World Gen}
  {received received' received'' : Nat → List Change} {age steps more : Nat}

theorem steps_add (steps more : Nat) (world : World Gen) :
    world.steps (steps + more) = (world.steps steps).bind (World.steps more) := by
  induction steps generalizing world with
  | zero => rw [Nat.zero_add]; rfl
  | succ steps ih =>
    rw [Nat.succ_add, World.steps, World.steps]
    cases world.step with
    | none => rfl
    | some first => exact ih first

/-- So many calm steps. -/
structure Calmly (steps : Nat) (world after : World Gen) (received received' : Nat → List Change)
    (age : Nat) : Prop where
  stepped : world.steps steps = some after
  sound : after.Sound received' age
  calm : after.Calm
  scope : after.scope = world.scope
  length : after.devices.length = world.devices.length
  forward : ∀ index, received index <+: received' index
  dwindles : ∀ (index : Nat) d, after.devices[index]? = some d → ∃ was,
    world.devices[index]? = some was ∧ d.device.db.outbox.Sublist was.device.db.outbox

theorem Sound.calmly (sound : world.Sound received age) (calm : world.Calm) :
    Calmly 0 world world received received age :=
  ⟨rfl, sound, calm, rfl, rfl, fun _ => List.prefix_rfl, fun _ d found => ⟨d, found, List.Sublist.refl _⟩⟩

theorem Calmly.trans (first : Calmly steps world middle received received' age)
    (second : Calmly more middle after received' received'' age) :
    Calmly (steps + more) world after received received'' age where
  stepped := by rw [steps_add, first.stepped, Option.bind_some, second.stepped]
  sound := second.sound
  calm := second.calm
  scope := second.scope.trans first.scope
  length := second.length.trans first.length
  forward index := (first.forward index).trans (second.forward index)
  dwindles := by
    intro index d found
    obtain ⟨now, there, later⟩ := second.dwindles index d found
    obtain ⟨was, here, earlier⟩ := first.dwindles index now there
    exact ⟨was, here, later.trans earlier⟩

theorem Progress.calmly (progress : Progress world after received received')
    (stepped : world.step = some after) (sound : after.Sound received' age) :
    Calmly 1 world after received received' age where
  stepped := by rw [World.steps, stepped]; rfl
  sound := sound
  calm := progress.calm
  scope := progress.scope
  length := progress.length
  forward := progress.forward
  dwindles := progress.dwindles

/-- Nobody has anything to push. -/
def Drained (world : World Gen) : Prop := ∀ d ∈ world.devices, d.device.db.outbox = []

theorem Calmly.drained (calmly : Calmly steps world after received received' age)
    (drained : world.Drained) : after.Drained := by
  intro d member
  obtain ⟨index, found⟩ := List.getElem?_of_mem member
  obtain ⟨was, there, within⟩ := calmly.dwindles index d found
  rw [drained was (List.mem_of_getElem? there)] at within
  exact List.sublist_nil.mp within

/-- Two steps: the first command of every outbox is answered, and leaves it. -/
theorem Sound.drains (sound : world.Sound received age) (calm : world.Calm)
    (short : age + 1 < 2 ^ 32) : ∃ after received', Calmly 2 world after received received' age ∧
      ∀ (index : Nat) was d, world.devices[index]? = some was → after.devices[index]? = some d →
        was.device.db.outbox ≠ [] → d.device.db.outbox.length < was.device.db.outbox.length := by
  obtain ⟨middle, between, stepped, sound', progress⟩ := sound.step_calm calm short
  obtain ⟨after, received', stepped', sound'', progress'⟩ := sound'.step_calm progress.calm short
  refine ⟨after, received', (progress.calmly stepped sound').trans (progress'.calmly stepped' sound''),
    fun index was d found there some => ?_⟩
  obtain ⟨now, middling, later⟩ := progress'.dwindles index d there
  obtain ⟨same, found', earlier⟩ := progress.dwindles index now middling
  obtain rfl : was = same := Option.some.inj (found.symm.trans found')
  obtain ⟨entry, rest, queued⟩ := List.exists_cons_of_ne_nil some
  have within := later.trans earlier
  refine lt_of_le_of_ne within.length_le fun length => ?_
  have still := within.eq_of_length length
  have unanswered : entry.id ∈ Invariants.queued d.device.db := by
    refine List.mem_map_of_mem ?_
    rw [still, queued]
    exact List.mem_cons_self
  exact progress'.answered index now d entry.id (progress.answers index was entry rest found queued)
    middling there ((later.map OutboxEntry.id).subset unanswered) unanswered

/-- Every outbox drains. -/
theorem Sound.drain (sound : world.Sound received age) (calm : world.Calm) (short : age + 1 < 2 ^ 32)
    {most : Nat} (few : ∀ d ∈ world.devices, d.device.db.outbox.length ≤ most) :
    ∃ after received', Calmly (2 * most) world after received received' age ∧ after.Drained := by
  induction most generalizing world received with
  | zero =>
    exact ⟨world, received, sound.calmly calm, fun d member =>
      List.length_eq_zero_iff.mp (Nat.le_zero.mp (few d member))⟩
  | succ most ih =>
    obtain ⟨middle, between, first, less⟩ := sound.drains calm short
    obtain ⟨after, received', rest, drained⟩ := ih first.sound first.calm fun d member => by
      obtain ⟨index, found⟩ := List.getElem?_of_mem member
      obtain ⟨was, there, within⟩ := first.dwindles index d found
      have before := few was (List.mem_of_getElem? there)
      by_cases some : was.device.db.outbox = []
      · rw [some] at within
        rw [List.sublist_nil.mp within]
        exact Nat.zero_le _
      · have := less index was d there found some
        omega
    exact ⟨after, received', by rw [Nat.mul_succ, Nat.add_comm]; exact first.trans rest, drained⟩

/-- With nobody writing, every commit lands. -/
theorem Sound.commit (sound : world.Sound received age) (calm : world.Calm) (short : age + 1 < 2 ^ 32)
    (drained : world.Drained) {most : Nat} (brief : ∀ held ∈ world.server.inFlight, held.2 ≤ most + 1) :
    ∃ after received', Calmly (most + 1) world after received received' age ∧
      after.server.inFlight = [] := by
  induction most generalizing world received with
  | zero =>
    obtain ⟨after, received', stepped, sound', progress⟩ := sound.step_calm calm short
    refine ⟨after, received', progress.calmly stepped sound', ?_⟩
    rw [progress.idle drained]
    refine List.eq_nil_iff_forall_not_mem.mpr fun held member => ?_
    have := Server.advanceCommits_within brief held member
    omega
  | succ most ih =>
    obtain ⟨middle, between, stepped, sound', progress⟩ := sound.step_calm calm short
    have first := progress.calmly stepped sound'
    obtain ⟨after, received', rest, committed⟩ := ih sound' progress.calm (first.drained drained) (by
      rw [progress.idle drained]
      exact fun held member => (Server.advanceCommits_within brief held member).2)
    exact ⟨after, received', by rw [Nat.add_comm]; exact first.trans rest, committed⟩

omit [Chance Gen] in
/-- With nothing left to push or to commit, the server stays as it is. -/
theorem Progress.still (progress : Progress world after received received') (drained : world.Drained)
    (committed : world.server.inFlight = []) : after.server = world.server :=
  (progress.idle drained).trans (Server.advanceCommits_idle committed)

/-- Two steps: a device that is behind is handed something that it did not have. -/
theorem Sound.reads (sound : world.Sound received age) (calm : world.Calm) (short : age + 1 < 2 ^ 32)
    (drained : world.Drained) (committed : world.server.inFlight = []) :
    ∃ after received', Calmly 2 world after received received' age ∧ after.server = world.server ∧
      ∀ (index : Nat) was, world.devices[index]? = some was →
        world.server.readable world.scope <+: received index ∨
          lastSeq (received index) < lastSeq (received' index) := by
  obtain ⟨middle, between, stepped, sound', progress⟩ := sound.step_calm calm short
  obtain ⟨after, received', stepped', sound'', progress'⟩ := sound'.step_calm progress.calm short
  have first := progress.calmly stepped sound'
  have still := progress.still drained committed
  refine ⟨after, received', first.trans (progress'.calmly stepped' sound''),
    (progress'.still (first.drained drained) (by rw [still, committed])).trans still,
    fun index was found => ?_⟩
  have shows' := progress.shows' index was found
  rw [Server.advanceCommits_idle committed] at shows'
  refine shows'.imp_right fun shown => ?_
  obtain ⟨now, there⟩ : ∃ now, middle.devices[index]? = some now := by
    have inside := (List.getElem?_eq_some_iff.mp found).1
    rw [← progress.length] at inside
    exact ⟨_, List.getElem?_eq_getElem inside⟩
  exact progress'.shown index now _ there (by rw [progress.scope]; exact shown)
    (progress.forward index)

end Runs

end World

end Sim

end CredSync
