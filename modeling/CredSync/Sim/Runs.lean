import CredSync.Sim.Checks
import CredSync.Sim.Flights

/-! Runs of a simulated world. Whatever is drawn, as long as responses are prompt, every step
ends, every device stays sound, and the checks made after it find nothing. -/

namespace CredSync.Sim

/-! ### From one moment to the next -/

/-- Every database comes from one that was there, and only goes forward. -/
def Onward (scope : ScopeId) (before after : List Db) : Prop :=
  ∀ (index : Nat) db, after[index]? = some db →
    ∃ was, before[index]? = some was ∧ was.Later scope db

theorem Onward.refl (scope : ScopeId) (databases : List Db) : Onward scope databases databases :=
  fun _ db found => ⟨db, found, .refl db⟩

theorem Onward.trans {scope : ScopeId} {before middle after : List Db}
    (first : Onward scope before middle) (second : Onward scope middle after) :
    Onward scope before after := by
  intro index db found
  obtain ⟨between, there, later⟩ := second index db found
  obtain ⟨was, here, earlier⟩ := first index between there
  exact ⟨was, here, earlier.trans later⟩

/-! ### The step checker -/

namespace Invariants

variable {scope : ScopeId} {databases later : List Db} {checker : Invariants}

/-- The checker has found nothing, and what it remembers of each device is some of the states
that the device has come from. -/
structure Watched (scope : ScopeId) (databases : List Db) (checker : Invariants) : Prop where
  silent : checker.violations = []
  recalls : ∀ index, ∃ history, Summarises scope index checker history ∧
    ∀ db, databases[index]? = some db → ∀ earlier ∈ history, earlier.2.Later scope db

theorem watched_blank (scope : ScopeId) (databases : List Db) : Watched scope databases {} :=
  ⟨rfl, fun index => ⟨[], summarises_blank scope index, fun _ _ => nofun⟩⟩

theorem Watched.onward (watched : Watched scope databases checker)
    (onward : Onward scope databases later) : Watched scope later checker where
  silent := watched.silent
  recalls index := by
    obtain ⟨history, summary, before⟩ := watched.recalls index
    refine ⟨history, summary, fun db found earlier member => ?_⟩
    obtain ⟨was, there, on⟩ := onward index db found
    exact (before was there earlier member).trans on

/-- A state that goes on from those before it, and repeats no command, follows from them. -/
theorem follows_of_later {history : List (Int × Db)} {db : Db} (ledger : db.Ledger)
    (before : ∀ earlier ∈ history, earlier.2.Later scope db) (atMs : Int) :
    Follows scope history (atMs, db) :=
  ⟨fun earlier member => (before earlier member).cursor,
    ⟨ledger.resolvedOnce, fun earlier member _ resolution inside =>
      ⟨resolution, (before earlier member).records _ inside, rfl⟩⟩,
    ledger.apart, fun earlier member => (before earlier member).unlost⟩

/-- One device's checks. -/
theorem Watched.checkDevice (watched : Watched scope databases checker) {index : Nat} {db : Db}
    (found : databases[index]? = some db) (ledger : db.Ledger) (atMs : Int) :
    Watched scope databases (checker.checkDevice scope (index, atMs, db)) := by
  obtain ⟨history, summary, before⟩ := watched.recalls index
  have follows := follows_of_later ledger (before db found) atMs
  refine ⟨(checkDevice_silent watched.silent summary atMs db).mpr follows, fun other => ?_⟩
  by_cases same : index = other
  · subst same
    refine ⟨history ++ [(atMs, db)], checkDevice_summarises summary follows,
      fun db' found' earlier member => ?_⟩
    cases found.symm.trans found'
    rcases List.mem_append.mp member with member | member
    · exact before db found earlier member
    · cases List.mem_singleton.mp member
      exact .refl db
  · obtain ⟨history', summary', before'⟩ := watched.recalls other
    exact ⟨history', (checkDevice_exact scope).apart checker index other (atMs, db) history' same
      summary', before'⟩

/-- The checks of every device. -/
theorem Watched.checkStep (watched : Watched scope databases checker)
    (ledgers : ∀ db ∈ databases, db.Ledger) (atMs : Int) :
    Watched scope databases (checker.checkStep scope atMs databases) := by
  unfold Invariants.checkStep
  refine List.foldlRecOn databases.zipIdx _ watched fun checker watched entry member => ?_
  have found : databases[entry.2]? = some entry.1 := List.mem_zipIdx_iff_getElem?.mp member
  exact watched.checkDevice found (ledgers entry.1 (List.mem_of_getElem? found)) atMs

end Invariants

/-! ### The devices -/

/-- The identifiers that up to four devices have used after so many steps. -/
def issuedBy (age : Nat) : Finset CommandId :=
  (Finset.range 4 ×ˢ Finset.range age).image fun at' =>
    commandId (UInt8.ofNat at'.1) (UInt32.ofNat at'.2)

theorem card_issuedBy (age : Nat) : (issuedBy age).card ≤ 4 * age := by
  refine Finset.card_image_le.trans ?_
  rw [Finset.card_product, Finset.card_range, Finset.card_range]

theorem issuedBy_mono {age older : Nat} (later : age ≤ older) : issuedBy age ⊆ issuedBy older :=
  Finset.image_subset_image
    (Finset.product_subset_product_right (Finset.range_subset_range.mpr later))

/-- All the devices of a world. -/
structure Crew [Hashing] (devices : List SimDevice) (server : Server) (scope : ScopeId)
    (entity : EntityName) (received : Nat → List Change) (age : Nat) : Prop where
  few : devices.length ≤ 4
  sound : ∀ (index : Nat) d, devices[index]? = some d →
    d.Sound server scope entity index (received index)
  authored : ∀ d ∈ devices, d.commandsAuthored.toNat ≤ age

section Crew

variable [Hashing] {devices : List SimDevice} {server later : Server} {scope : ScopeId}
  {entity : EntityName} {received : Nat → List Change} {age : Nat}

theorem Crew.goesOn (crew : Crew devices server scope entity received age)
    (goes : Server.GoesOn scope server later) : Crew devices later scope entity received age :=
  { crew with sound := fun index d found => (crew.sound index d found).goesOn goes }

/-- Whatever is queued was issued. -/
theorem Crew.issued (crew : Crew devices server scope entity received age) {index : Nat}
    {d : SimDevice} (found : devices[index]? = some d) {entry : OutboxEntry}
    (member : entry ∈ d.device.db.outbox) : entry.id ∈ issuedBy age := by
  have sound := crew.sound index d found
  have known := (sound.owes.ledger.known entry.id).mpr (.inl (List.mem_map_of_mem member))
  obtain ⟨n, below, same⟩ := sound.own entry.id known
  have inside := (List.getElem?_eq_some_iff.mp found).1
  have authored := crew.authored d (List.mem_of_getElem? found)
  have few := crew.few
  refine Finset.mem_image.mpr ⟨(index, n.toNat), Finset.mem_product.mpr
    ⟨Finset.mem_range.mpr (by omega), Finset.mem_range.mpr (by omega)⟩, ?_⟩
  rw [same, UInt32.ofNat_toNat]

/-- A device has no more to push than it has authored. -/
theorem Crew.outbox_le (crew : Crew devices server scope entity received age) {d : SimDevice}
    (member : d ∈ devices) : d.device.db.outbox.length ≤ age := by
  obtain ⟨index, found⟩ := List.getElem?_of_mem member
  have sound := crew.sound index d found
  have own : d.device.db.outbox.map OutboxEntry.id ⊆
      (List.range age).map fun n => commandId (UInt8.ofNat index) (UInt32.ofNat n) := by
    intro id queued
    obtain ⟨n, below, rfl⟩ := sound.own id ((sound.owes.ledger.known id).mpr (.inl queued))
    refine List.mem_map.mpr ⟨n.toNat, List.mem_range.mpr ?_, by rw [UInt32.ofNat_toNat]⟩
    exact lt_of_lt_of_le below (crew.authored d member)
  have most := (sound.owes.ledger.queuedOnce.subperm own).length_le
  rwa [List.length_map, List.length_map, List.length_range] at most

theorem Crew.ledgers (crew : Crew devices server scope entity received age) :
    ∀ db ∈ devices.map (·.device.db), db.Ledger := by
  intro db member
  obtain ⟨d, inside, rfl⟩ := List.mem_map.mp member
  obtain ⟨index, found⟩ := List.getElem?_of_mem inside
  exact (crew.sound index d found).owes.ledger

variable {Gen : Type} [Chance Gen]

omit [Hashing] [Chance Gen] in
/-- Time passing changes nothing but clocks. -/
theorem onward_map (same : SimDevice → SimDevice) (kept : ∀ d, (same d).device = d.device) :
    Onward scope (devices.map (·.device.db)) ((devices.map same).map (·.device.db)) := by
  have same : (devices.map same).map (·.device.db) = devices.map (·.device.db) := by
    rw [List.map_map]
    exact List.map_congr_left fun d _ => congrArg Device.db (kept d)
  rw [same]
  exact .refl scope _

omit [Chance Gen] in
theorem Crew.map (crew : Crew devices server scope entity received age) (same : SimDevice → SimDevice)
    (kept : ∀ d, (same d).device = d.device)
    (counted : ∀ d, (same d).commandsAuthored = d.commandsAuthored) :
    Crew (devices.map same) server scope entity received age where
  few := by rw [List.length_map]; exact crew.few
  sound index d found := by
    rw [List.getElem?_map] at found
    obtain ⟨d, there, rfl⟩ := Option.map_eq_some_iff.mp found
    exact (crew.sound index d there).same (kept d) (counted d)
  authored d member := by
    obtain ⟨d, inside, rfl⟩ := List.mem_map.mp member
    rw [counted d]
    exact crew.authored d inside

/-- Turns taken one after another are each a turn on some generator. -/
theorem turns_getElem? (world : World Gen) (start : Nat) (devices : List SimDevice) (rng : Gen)
    (offset : Nat) : ∃ rng', (world.turns start devices rng).1[offset]? =
      devices[offset]?.map fun d => (d.turn world (start + offset) rng').1 := by
  induction devices generalizing start rng offset with
  | nil => exact ⟨rng, rfl⟩
  | cons d rest ih =>
    cases offset with
    | zero => exact ⟨rng, rfl⟩
    | succ offset =>
      obtain ⟨rng', found⟩ := ih (start + 1) (d.turn world start rng).2 offset
      exact ⟨rng', by rw [← Nat.add_assoc, Nat.add_right_comm]; exact found⟩

theorem turns_length (world : World Gen) (start : Nat) (devices : List SimDevice) (rng : Gen) :
    (world.turns start devices rng).1.length = devices.length := by
  induction devices generalizing start rng with
  | nil => rfl
  | cons d rest ih => exact congrArg (· + 1) (ih (start + 1) _)

/-- Every device takes its turn. -/
theorem Crew.turns {world : World Gen}
    (crew : Crew devices server world.scope world.entity received age)
    (idle : ∀ d ∈ devices, d.pending = []) (room : age + 1 < 2 ^ 32) (rng : Gen) :
    Crew (world.turns 0 devices rng).1 server world.scope world.entity received (age + 1) ∧
      Onward world.scope (devices.map (·.device.db))
        ((world.turns 0 devices rng).1.map (·.device.db)) ∧
      ∀ (index : Nat) d, (world.turns 0 devices rng).1[index]? = some d → ∃ push pull,
        d.Asks world.scope (received index) push pull := by
  have turned (index : Nat) (after : SimDevice)
      (found : (world.turns 0 devices rng).1[index]? = some after) :
      ∃ d, devices[index]? = some d ∧
        SimDevice.Turned d after server world.scope world.entity index (received index) := by
    obtain ⟨rng', turns⟩ := turns_getElem? world 0 devices rng index
    rw [turns] at found
    obtain ⟨d, there, rfl⟩ := Option.map_eq_some_iff.mp found
    have authored := crew.authored d (List.mem_of_getElem? there)
    rw [Nat.zero_add]
    exact ⟨d, there, (crew.sound index d there).turn (idle d (List.mem_of_getElem? there))
      (by omega) rng'⟩
  refine ⟨⟨by rw [turns_length]; exact crew.few, fun index after found => ?_, fun after member => ?_⟩,
    fun index db found => ?_, fun index after found => ?_⟩
  · obtain ⟨d, -, turned⟩ := turned index after found
    exact turned.sound
  · obtain ⟨index, found⟩ := List.getElem?_of_mem member
    obtain ⟨d, there, turned⟩ := turned index after found
    exact turned.authored.trans (Nat.succ_le_succ (crew.authored d (List.mem_of_getElem? there)))
  · rw [List.getElem?_map] at found
    obtain ⟨after, there, rfl⟩ := Option.map_eq_some_iff.mp found
    obtain ⟨d, here, turned⟩ := turned index after there
    exact ⟨d.device.db, by rw [List.getElem?_map, here]; rfl, turned.later⟩
  · obtain ⟨d, -, turned⟩ := turned index after found
    exact turned.asks

end Crew

/-! ### Deliveries -/

namespace World

section Deliveries

variable {Gen : Type} [Chance Gen] [Hashing] {world : World Gen} {received : Nat → List Change}
  {age : Nat}

/-- A world, and the responses that it will hand over. -/
structure Afloat (world : World Gen) (received : Nat → List Change) (age : Nat)
    (flights : List InFlight) : Prop where
  serves : world.server.Serves world.scope world.entity
  crew : Crew world.devices world.server world.scope world.entity received age
  idle : ∀ d ∈ world.devices, d.pending = []
  flying : Flying world.server world.scope received (flights.map InFlight.addressed)

/-- What handing over responses changes. -/
structure Handed (before after : World Gen) (received received' : Nat → List Change) : Prop where
  rest : ∃ devices rng, after = { before with devices := devices, rng := rng }
  onward : Onward before.scope before.databases after.databases
  forward : ∀ index, received index <+: received' index
  length : after.devices.length = before.devices.length
  settles : ∀ (index : Nat) d, after.devices[index]? = some d →
    ∃ was, before.devices[index]? = some was ∧ was.Settles d

omit [Chance Gen] [Hashing] in
theorem Handed.refl (world : World Gen) (received : Nat → List Change) :
    Handed world world received received :=
  ⟨⟨world.devices, world.rng, rfl⟩, .refl _ _, fun _ => List.prefix_rfl, rfl,
    fun _ d found => ⟨d, found, List.Sublist.refl _, id⟩⟩

omit [Chance Gen] [Hashing] in
theorem Handed.trans {middle after : World Gen} {received' received'' : Nat → List Change}
    (first : Handed world middle received received')
    (second : Handed middle after received' received'') : Handed world after received received'' where
  rest := by
    obtain ⟨devices, rng, rfl⟩ := first.rest
    obtain ⟨devices', rng', rfl⟩ := second.rest
    exact ⟨devices', rng', rfl⟩
  onward := by
    obtain ⟨devices, rng, same⟩ := first.rest
    have onward := second.onward
    rw [same] at onward
    exact first.onward.trans (by rw [same]; exact onward)
  forward index := (first.forward index).trans (second.forward index)
  length := second.length.trans first.length
  settles index d found := by
    obtain ⟨between, there, last⟩ := second.settles index d found
    obtain ⟨was, here, before⟩ := first.settles index between there
    exact ⟨was, here, last.dwindles.trans before.dwindles, fun online => last.online (before.online online)⟩

/-- One response is handed over, or is for nobody. -/
theorem Afloat.deliver {flight : InFlight} {flights : List InFlight}
    (afloat : world.Afloat received age (flight :: flights)) : ∃ received',
      (world.deliver flight).Afloat received' age flights ∧
        Handed world (world.deliver flight) received received' := by
  obtain ⟨serves, crew, idle, flying⟩ := afloat
  unfold World.deliver
  cases found : world.devices[flight.device]? with
  | none =>
    exact ⟨received, ⟨serves, crew, idle, fun other member => flying.delivers other
      (List.mem_cons_of_mem _ member), (List.pairwise_cons.mp flying.behind).2⟩, .refl world received⟩
  | some d =>
    have sound := crew.sound flight.device d found
    obtain ⟨received', leaves, settles, ends⟩ := sound.receives serves
      (flying.delivers flight.addressed List.mem_cons_self) world.rng
    simp only [InFlight.addressed] at leaves settles ends ⊢
    generalize d.receive world flight.response world.rng = got at *
    have set (index : Nat) (after : SimDevice)
        (there : (world.devices.set flight.device got.1)[index]? = some after) :
        (index = flight.device ∧ after = got.1) ∨
          (index ≠ flight.device ∧ world.devices[index]? = some after) := by
      rw [List.getElem?_set] at there
      split at there
      · rename_i same
        rw [if_pos (List.getElem?_eq_some_iff.mp found).1] at there
        exact .inl ⟨same.symm, (Option.some.inj there).symm⟩
      · rename_i other
        exact .inr ⟨Ne.symm other, there⟩
    refine ⟨Function.update received flight.device received', ⟨serves, ⟨?_, ?_, ?_⟩, ?_, ?_⟩,
      ⟨_, _, rfl⟩, ?_, ?_, List.length_set, ?_⟩
    · rw [List.length_set]
      exact crew.few
    · intro index after there
      rcases set index after there with ⟨rfl, rfl⟩ | ⟨other, there⟩
      · rw [Function.update_self]
        exact leaves.sound
      · rw [Function.update_of_ne other]
        exact crew.sound index after there
    · intro after member
      rcases List.mem_or_eq_of_mem_set member with member | rfl
      · exact crew.authored after member
      · rw [leaves.moved.authored]
        exact crew.authored d (List.mem_of_getElem? found)
    · intro after member
      rcases List.mem_or_eq_of_mem_set member with member | rfl
      · exact idle after member
      · exact leaves.moved.pending.elim (·.trans (idle d (List.mem_of_getElem? found))) id
    · exact flying.delivered serves leaves.forward leaves.sound.reads.read ends
    · intro index db there
      simp only [databases, List.getElem?_map] at there ⊢
      obtain ⟨after, here, rfl⟩ := Option.map_eq_some_iff.mp there
      rcases set index after here with ⟨rfl, rfl⟩ | ⟨other, here⟩
      · exact ⟨d.device.db, by rw [found]; rfl, leaves.moved.later⟩
      · exact ⟨after.device.db, by rw [here]; rfl, .refl _⟩
    · intro index
      by_cases here : index = flight.device
      · rw [here, Function.update_self]
        exact leaves.forward
      · rw [Function.update_of_ne here]
    · intro index after there
      rcases set index after there with ⟨rfl, rfl⟩ | ⟨other, there⟩
      · exact ⟨d, found, settles⟩
      · exact ⟨after, there, List.Sublist.refl _, id⟩

/-- All the responses of a list are handed over, one after another. -/
theorem Afloat.deliverAll {due waiting : List InFlight}
    (afloat : world.Afloat received age (due ++ waiting)) : ∃ received',
      (due.foldl World.deliver world).Afloat received' age waiting ∧
        Handed world (due.foldl World.deliver world) received received' := by
  induction due generalizing world received with
  | nil => exact ⟨received, afloat, .refl world received⟩
  | cons flight rest ih =>
    obtain ⟨middle, afloat', handed⟩ := afloat.deliver
    obtain ⟨received', afloat'', handed'⟩ := ih afloat'
    exact ⟨received', afloat'', handed.trans handed'⟩

end Deliveries

/-! ### One step -/

section Steps

variable {Gen : Type} [Chance Gen] [Hashing] {world : World Gen} {received : Nat → List Change}
  {age : Nat}

omit [Chance Gen] in
/-- What is checked against the server holds of every device. -/
theorem Afloat.check {flights : List InFlight} (afloat : world.Afloat received age flights) :
    world.check = { world with
      invariants := world.invariants.checkStep world.scope world.nowMs world.databases } := by
  -- a device's cursor is where its first changes of the log end
  have at' {index : Nat} {db : Db} (found : world.databases[index]? = some db) :
      received index <+: world.server.readable world.scope ∧
        db.version = KeyedLog.live ((received index).map Change.entry) ∧
        ∀ cursor, db.cursors.lookup world.scope = some cursor →
          cursor.get = lastSeq (received index) := by
    rw [databases, List.getElem?_map] at found
    obtain ⟨d, there, rfl⟩ := Option.map_eq_some_iff.mp found
    have reads := (afloat.crew.sound index d there).reads
    refine ⟨reads.read, reads.holds.version, fun cursor stored => ?_⟩
    rw [← reads.holds.cursor, Db.position, Db.stored, stored]
    rfl
  have serves := afloat.serves
  have rows {index : Nat} {db : Db} (found : world.databases[index]? = some db) :
      Invariants.appliedState world.nowMs index db world.server world.scope = [] ∧
        Invariants.durableEffects world.nowMs index db world.server world.scope = [] := by
    obtain ⟨read, version, reached⟩ := at' found
    refine Invariants.state_silent.mpr fun cursor stored key => ?_
    rw [version, reached cursor stored]
    exact serves.expected (read.trans (world.server.readable_begins world.scope)) key
  have bounds {index : Nat} {db : Db} (found : world.databases[index]? = some db) :
      Invariants.cursorBounds world.nowMs index db world.server world.scope = [] := by
    obtain ⟨read, -, reached⟩ := at' found
    refine Invariants.cursorBounds_silent.mpr fun cursor stored => ?_
    rw [reached cursor stored]
    exact (serves.ascending.reached_mono (fun change _ => change.seq.lower) read).trans
      serves.readable_le
  unfold World.check
  simp only [Invariants.checkCursorBounds, Invariants.checkDurableEffects,
    Invariants.checkAppliedState]
  rw [Invariants.checkAll_silent fun _ _ found => bounds found,
    Invariants.checkAll_silent fun _ _ found => (rows found).2,
    Invariants.checkAll_silent fun _ _ found => (rows found).1]

/-- Before the devices' turns, commits land and others write. -/
theorem stirs (serves : world.server.Serves world.scope world.entity) {issued : Finset CommandId}
    (room : world.server.Room age issued) (enough : 1 + age + issued.card ≤ Limits.seqMax) :
    ∃ server rng pressure, world.stir.writeExternally = some { world with
        server := server
        rng := rng
        pressure := pressure } ∧
      server.Serves world.scope world.entity ∧ Server.GoesOn world.scope world.server server ∧
      server.Room (age + 1) issued := by
  obtain ⟨committed, goes⟩ := serves.commits
  have room' : world.server.advanceCommits.Room age issued :=
    room.same rfl rfl (Server.seqs_advanceCommits _)
  have stirred : ∃ server rng pressure, world.stir = { world with
        server := server
        rng := rng
        pressure := pressure } ∧
      server.Serves world.scope world.entity ∧ Server.GoesOn world.scope world.server server ∧
      server.Room age issued := by
    unfold stir
    generalize (if world.quiet then (false, world.rng)
      else Chance.chance world.rates.slowCommit world.rng) = slow
    obtain ⟨slow, rng⟩ := slow
    cases slow with
    | false => exact ⟨_, _, _, rfl, committed, goes, room'⟩
    | true =>
      obtain ⟨holds, goes'⟩ := committed.holds (Chance.range_bounds (by decide) rng :
        (1 : UInt32).toNat ≤ _ ∧ (Chance.range 1 4 rng).1.toNat ≤ _).2
      exact ⟨_, _, _, rfl, holds, goes.trans goes', room'.same rfl rfl rfl⟩
  obtain ⟨server, rng, pressure, stirs, serves', goes', room''⟩ := stirred
  rw [stirs]
  unfold writeExternally
  simp only
  generalize (if world.quiet then (false, rng) else Chance.chance 2 rng) = writes
  obtain ⟨writes, rng'⟩ := writes
  cases writes with
  | false => exact ⟨server, rng', pressure, rfl, serves', goes', room''.grown (Nat.le_succ age) subset_rfl⟩
  | true =>
    simp only [if_true]
    generalize Chance.below 8 rng' = picked
    obtain ⟨after, written, serves'', onward, wider⟩ :=
      serves'.externalChange room'' enough (rowPicked picked.1)
    rw [written]
    exact ⟨after, picked.2, pressure, rfl, serves'', goes'.trans onward, wider⟩

omit [Chance Gen] in
/-- Nothing has been carried yet. -/
theorem boards (serves : world.server.Serves world.scope world.entity)
    (flying : Flying world.server world.scope received (world.inFlight.map InFlight.addressed))
    (room : world.server.Room age (issuedBy age)) :
    Carrying.Sound ⟨world.server, world.rng, world.pressure, world.inFlight, []⟩ world.server
      world.scope world.entity received age (issuedBy age) world.nowMs world.inFlight 0 where
  serves := serves
  goes := .refl world.server
  room := room
  flying := by rw [List.append_nil]; exact flying
  apart := nofun
  soon := ⟨[], (List.append_nil _).symm, nofun⟩

omit [Chance Gen] in
/-- What the devices ask may be asked. -/
theorem asked (crew : Crew world.devices world.server world.scope world.entity received age)
    (asks : ∀ (index : Nat) d, world.devices[index]? = some d → ∃ push pull,
      d.Asks world.scope (received index) push pull) :
    ∀ offset d, world.devices[offset]? = some d →
      received (0 + offset) <+: world.server.readable world.scope ∧ ∃ push pull,
        d.Asks world.scope (received (0 + offset)) push pull ∧
        ∀ request ∈ push, ∀ command ∈ request.commands,
          Reflects command ∧ command.id ∈ issuedBy age := by
  intro offset d found
  rw [Nat.zero_add]
  have device := crew.sound offset d found
  obtain ⟨push, pull, asks⟩ := asks offset d found
  refine ⟨device.reads.read, push, pull, asks, fun request pushed command member => ?_⟩
  obtain ⟨entry, inside, rfl⟩ := List.mem_map.mp ((asks.first request pushed).subset member)
  exact ⟨(device.owes.authored entry inside).command, crew.issued found inside⟩

/-- What the devices asked is answered, and the answers are in flight. -/
theorem carries (serves : world.server.Serves world.scope world.entity)
    (crew : Crew world.devices world.server world.scope world.entity received age)
    (flying : Flying world.server world.scope received (world.inFlight.map InFlight.addressed))
    (punctual : world.rates.Prompt) (room : world.server.Room age (issuedBy age))
    (enough : 1 + age + (issuedBy age).card ≤ Limits.seqMax)
    (asks : ∀ (index : Nat) d, world.devices[index]? = some d → ∃ push pull,
      d.Asks world.scope (received index) push pull) :
    ∃ server rng pressure prompt slow, world.carryNetwork = some { world with
        devices := world.devices.map fun d =>
          { d with pending := [], requestsSent := d.requestsSent + d.pending.length }
        server := server
        rng := rng
        pressure := pressure
        inFlight := world.inFlight ++ prompt ++ slow } ∧
      server.Serves world.scope world.entity ∧ Server.GoesOn world.scope world.server server ∧
      server.Room age (issuedBy age) ∧
      Flying server world.scope received
        ((world.inFlight ++ prompt ++ slow).map InFlight.addressed) ∧
      (∀ flight ∈ prompt,
        world.nowMs < flight.deliverAtMs ∧ flight.deliverAtMs ≤ world.nowMs + stepMs) ∧
      ∀ flight ∈ slow, world.nowMs + stepMs < flight.deliverAtMs ∧
        flight.deliverAtMs ≤ world.nowMs + 2 * stepMs := by
  obtain ⟨after, carried, sound⟩ :=
    (boards serves flying room).carriesDevices punctual enough (asked crew asks)
  obtain ⟨prompt, whole, soon⟩ := sound.soon
  obtain ⟨same, slow⟩ := Carrying.release_spec world.nowMs after.held after.rng
  have flying' := sound.flying
  rw [whole, List.map_append, ← same, ← List.map_append] at flying'
  refine ⟨after.server, (Carrying.release world.nowMs after.held after.rng).2, after.pressure, prompt,
    _, ?_, sound.serves, sound.goes, sound.room, flying', soon, slow⟩
  rw [carryNetwork, carried, Option.map_some, whole]

theorem deliverDue_eq (world : World Gen) {due waiting : List InFlight}
    (dues : world.inFlight.filter (fun flight => decide (flight.deliverAtMs ≤ world.nowMs)) = due)
    (waits : world.inFlight.filter (fun flight => !decide (flight.deliverAtMs ≤ world.nowMs)) =
      waiting) : world.deliverDue = due.foldl deliver { world with inFlight := waiting } := by
  rw [deliverDue, dues, waits]

/-- A world between two steps. -/
structure Sound (world : World Gen) (received : Nat → List Change) (age : Nat) : Prop where
  afloat : world.Afloat received age world.inFlight
  room : world.server.Room age (issuedBy age)
  queued : Timely.Queued InFlight.deliverAtMs stepMs world.nowMs world.inFlight
  punctual : world.rates.Prompt
  registry : world.registry = Registry.reflecting world.entity world.scope
  watched : Invariants.Watched world.scope world.databases world.invariants

omit [Hashing] in
theorem room_enough {age : Nat} (short : age < 2 ^ 32) :
    1 + age + (issuedBy age).card ≤ Limits.seqMax := by
  have few := card_issuedBy age
  have most : Limits.seqMax = 2 ^ 63 - 1 := rfl
  omega

/-- A world in which every device has taken its turn. -/
structure Turned (world turned : World Gen) (received : Nat → List Change) (age : Nat) : Prop where
  rest : ∃ devices server rng pressure, turned = { world with
    nowMs := world.nowMs + stepMs
    devices := devices
    server := server
    rng := rng
    pressure := pressure }
  serves : turned.server.Serves world.scope world.entity
  goes : Server.GoesOn world.scope world.server turned.server
  room : turned.server.Room age (issuedBy age)
  crew : Crew turned.devices turned.server world.scope world.entity received age
  asks : ∀ (index : Nat) d, turned.devices[index]? = some d → ∃ push pull,
    d.Asks world.scope (received index) push pull
  onward : Onward world.scope world.databases turned.databases

omit [Chance Gen] in
/-- The clocks go on, and nothing else moves. -/
theorem ticks {server : Server} (crew : Crew world.devices server world.scope world.entity received age)
    (idle : ∀ d ∈ world.devices, d.pending = []) :
    Crew world.passTime.devices server world.scope world.entity received age ∧
      (∀ d ∈ world.passTime.devices, d.pending = []) ∧
      Onward world.scope world.databases world.passTime.databases := by
  refine ⟨crew.map _ (fun _ => rfl) fun _ => rfl, fun d member => ?_, onward_map _ fun _ => rfl⟩
  obtain ⟨d, inside, rfl⟩ := List.mem_map.mp member
  exact idle d inside

/-- Time passes, commits land, others write, and every device takes its turn. -/
theorem Sound.turns (sound : world.Sound received age) (short : age + 1 < 2 ^ 32) :
    ∃ turned, world.step = turned.carryNetwork.map (fun answered => answered.deliverDue.check) ∧
      Turned world turned received (age + 1) := by
  obtain ⟨⟨serves, crew, idle, flying⟩, room, -, -, -⟩ := sound
  have enough := room_enough short
  obtain ⟨server, rng, pressure, stirred, serves', goes, room'⟩ := world.passTime.stirs serves
    (room.grown le_rfl (issuedBy_mono (Nat.le_add_right age 1))) (by omega)
  set opened : World Gen := { world.passTime with server := server, rng := rng, pressure := pressure }
  obtain ⟨ticked, still, onwards⟩ := World.ticks crew idle
  replace ticked : Crew opened.devices opened.server opened.scope opened.entity received age :=
    ticked.goesOn goes
  obtain ⟨turned, onward, asks⟩ := ticked.turns still short opened.rng
  refine ⟨opened.takeTurns, ?_, ⟨_, _, _, _, rfl⟩, serves', goes, room', turned, asks,
    onwards.trans onward⟩
  rw [World.step, stirred, Option.bind_some]

/-- A world in which responses are about to be handed over: those that are due, ahead of those
that wait. -/
structure Arriving (world answered : World Gen) (received : Nat → List Change) (age : Nat)
    (due waiting : List InFlight) : Prop where
  rest : ∃ devices server rng pressure inFlight, answered = { world with
    nowMs := world.nowMs + stepMs
    devices := devices
    server := server
    rng := rng
    pressure := pressure
    inFlight := inFlight }
  whole : answered.inFlight = due ++ waiting
  dues : due = answered.inFlight.filter fun flight => decide (flight.deliverAtMs ≤ answered.nowMs)
  kept : world.inFlight ⊆ answered.inFlight
  delivered : answered.deliverDue = due.foldl World.deliver { answered with inFlight := waiting }
  afloat : Afloat { answered with inFlight := waiting } received age (due ++ waiting)
  room : answered.server.Room age (issuedBy age)
  queued : Timely.Queued InFlight.deliverAtMs stepMs answered.nowMs waiting
  onward : Onward world.scope world.databases answered.databases

/-- What the devices asked is answered, and what is due comes first. -/
theorem Sound.arrives (sound : world.Sound received age) {older : Nat} {turned : World Gen}
    (turns : Turned world turned received older) (short : older < 2 ^ 32) :
    ∃ answered due waiting, turned.carryNetwork = some answered ∧
      Arriving world answered received older due waiting := by
  obtain ⟨⟨devices, server, rng, pressure, rfl⟩, serves, goes, room, crew, asks, onward⟩ := turns
  obtain ⟨server', rng', pressure', prompt, slow, carried, serves', goes', room', flying', soon, later⟩ :=
    World.carries serves crew (sound.afloat.flying.goesOn goes) sound.punctual room
      (room_enough short) asks
  let empties (d : SimDevice) : SimDevice :=
    { d with pending := [], requestsSent := d.requestsSent + d.pending.length }
  obtain ⟨due, waiting, whole, dues, waits, queued⟩ := sound.queued.look
    (fun flight member => ⟨(soon flight member).1, by
      have := (soon flight member).2
      change _ ≤ world.nowMs + stepMs + stepMs at this
      omega⟩)
    (fun flight member => by
      have := later flight member
      change world.nowMs + stepMs + stepMs < _ ∧ _ ≤ world.nowMs + stepMs + 2 * stepMs at this
      omega)
  change Flying server' _ received ((world.inFlight ++ prompt ++ slow).map InFlight.addressed) at flying'
  rw [whole] at flying'
  refine ⟨_, due, waiting, carried, ⟨_, _, _, _, _, rfl⟩, whole, dues.symm, ?_,
    deliverDue_eq _ dues waits, ?_, room', queued, onward.trans (onward_map empties fun _ => rfl)⟩
  · exact fun flight member => List.mem_append_left _ (List.mem_append_left _ member)
  exact {
    serves := serves'
    crew := (crew.map empties (fun _ => rfl) fun _ => rfl).goesOn goes'
    idle := fun d member => by
      obtain ⟨d, _, rfl⟩ := List.mem_map.mp member
      rfl
    flying := flying' }

/-- What is due is handed over, and the checks find nothing. -/
theorem Sound.ends (sound : world.Sound received age) {older : Nat} {answered : World Gen}
    {due waiting : List InFlight} (arriving : Arriving world answered received older due waiting) :
    ∃ received' invariants, answered.deliverDue.check =
        { due.foldl World.deliver { answered with inFlight := waiting } with
          invariants := invariants } ∧
      Handed { answered with inFlight := waiting }
        (due.foldl World.deliver { answered with inFlight := waiting }) received received' ∧
      answered.deliverDue.check.Sound received' older := by
  obtain ⟨⟨devices, server, rng, pressure, inFlight, rfl⟩, -, -, -, delivered, afloat, room, queued,
    onward⟩ := arriving
  obtain ⟨received', arrived, handed⟩ := afloat.deliverAll
  have checked := arrived.check
  rw [← delivered] at checked
  refine ⟨received', _, checked.trans (by rw [delivered]), handed, ?_⟩
  obtain ⟨devices', rng', rest⟩ := handed.rest
  have come := onward.trans handed.onward
  rw [delivered] at checked ⊢
  rw [rest] at arrived checked come ⊢
  rw [checked]
  exact {
    afloat := ⟨arrived.serves, arrived.crew, arrived.idle, arrived.flying⟩
    room := room
    queued := queued
    punctual := sound.punctual
    registry := sound.registry
    watched := (sound.watched.onward come).checkStep arrived.crew.ledgers _ }

/-- A step ends, and leaves the world as it should be. -/
theorem Sound.step (sound : world.Sound received age) (short : age + 1 < 2 ^ 32) :
    ∃ after received', world.step = some after ∧ after.Sound received' (age + 1) := by
  obtain ⟨turned, stepped, turns⟩ := sound.turns short
  obtain ⟨answered, due, waiting, carried, arriving⟩ := sound.arrives turns short
  obtain ⟨received', _, _, _, sound'⟩ := sound.ends arriving
  exact ⟨_, received', by rw [stepped, carried]; rfl, sound'⟩

/-- Any number of steps. -/
theorem Sound.steps (sound : world.Sound received age) {n : Nat} (short : age + n < 2 ^ 32) :
    ∃ after received', world.steps n = some after ∧ after.Sound received' (age + n) := by
  induction n generalizing world received age with
  | zero => exact ⟨world, received, rfl, sound⟩
  | succ n ih =>
    obtain ⟨middle, between, first, sound'⟩ := sound.step (by omega)
    obtain ⟨after, received', rest, sound''⟩ := ih sound' (by omega)
    refine ⟨after, received', by rw [World.steps, first, Option.bind_some, rest], ?_⟩
    rwa [Nat.add_right_comm, Nat.add_assoc] at sound''

/-! ### Where a run begins -/

omit [Chance Gen] [Hashing] in
theorem newServer_serves [Hashing] : (Server.registerCommand {} submitReflection.bytes reflections
    cohort).Serves cohort reflections where
  coherent := Server.coherent_new.next (.quiet ⟨rfl, rfl, rfl, rfl⟩ le_rfl)
  target := Finmap.lookup_insert _
  whole := rfl
  upserts := nofun
  counted := rfl
  bodies id known found := by cases found
  held index entry found := by cases found
  inside := nofun
  brief := ⟨Nat.zero_le _, nofun⟩

/-- A device that holds nothing, and has been told nothing. -/
theorem newDevice_sound (rng : Gen) (server : Server) (index : Nat) :
    (newDevice rng).1.Sound server cohort reflections index [] where
  registered := rfl
  migrations := rfl
  current := rfl
  mirrors := fun _ _ => rfl
  reads := ⟨⟨rfl, rfl, rfl, fun _ _ => rfl⟩, List.nil_prefix, rfl, rfl⟩
  owes := ⟨fun _ => rfl, ⟨List.nodup_nil, List.nodup_nil, nofun, fun id => by simp [newDevice]⟩, nofun,
    nofun, nofun, nofun⟩
  own := fun id member => absurd member (Finset.notMem_empty id)

omit [Hashing] in
theorem newDevices_getElem? (n : Nat) (rng : Gen) (index : Nat) (d : SimDevice)
    (found : (newDevices n rng).1[index]? = some d) : ∃ rng' : Gen, d = (newDevice rng').1 := by
  induction n generalizing rng index with
  | zero => cases found
  | succ n ih =>
    cases index with
    | zero => exact ⟨rng, (Option.some.inj found).symm⟩
    | succ index => exact ih _ index found

omit [Hashing] in
theorem newDevices_length (n : Nat) (rng : Gen) : (newDevices n rng).1.length = n := by
  induction n generalizing rng with
  | zero => rfl
  | succ n ih => exact congrArg (· + 1) (ih _)

theorem sound_new {rates : FaultRates} (punctual : rates.Prompt) (rng : Gen) :
    (World.new rng rates).Sound (fun _ => []) 0 where
  afloat := {
    serves := newServer_serves
    crew := {
      few := by
        have most := (@Chance.range_bounds _ _ 2 4 (by decide) rng).2
        rw [World.new]
        simp only [newDevices_length]
        exact most
      sound := fun index d found => by
        obtain ⟨rng', rfl⟩ := newDevices_getElem? _ _ index d found
        exact newDevice_sound rng' _ index
      authored := fun d member => by
        obtain ⟨index, found⟩ := List.getElem?_of_mem member
        obtain ⟨rng', rfl⟩ := newDevices_getElem? _ _ index d found
        exact Nat.le_refl 0 }
    idle := fun d member => by
      obtain ⟨index, found⟩ := List.getElem?_of_mem member
      obtain ⟨rng', rfl⟩ := newDevices_getElem? _ _ index d found
      rfl
    flying := flying_nil }
  room := ⟨le_rfl, Finset.empty_subset _, {
    entered := fun id seq told => nomatch told
    once := fun id other seq told => nomatch told
    others := ⟨[], le_rfl, nofun⟩ }⟩
  queued := Timely.queued_nil
  punctual := punctual
  registry := rfl
  watched := Invariants.watched_blank _ _

end Steps

end World

end CredSync.Sim
