import CredSync.Sim.Settling

/-! Convergence. Settling drains, commits and catches up in a number of steps that only the age
of the world bounds, and nothing that is judged then is found wanting. -/

namespace CredSync.Sim

namespace World

variable {Gen : Type} [Chance Gen] [Hashing] {world after : World Gen}
  {received received' : Nat → List Change} {age steps : Nat}

/-! ### Catching up -/

omit [Chance Gen] in
/-- What is read no further than the head has all been read there. -/
theorem Sound.caughtUp (sound : world.Sound received age) {index : Nat} {d : SimDevice}
    (found : world.devices[index]? = some d)
    (reached : lastSeq (world.server.readable world.scope) ≤ lastSeq (received index)) :
    received index = world.server.readable world.scope := by
  have read := (sound.afloat.crew.sound index d found).reads.read
  have ascending := sound.afloat.serves.ascending
  exact List.IsPrefix.eq_of_length_le read
    (ascending.begins_of_reached (fun change _ => change.seq.lower) List.prefix_rfl read
      reached).length_le

/-- Every device catches up, or comes that far. -/
theorem Sound.catchUp (sound : world.Sound received age) (calm : world.Calm) (short : age + 1 < 2 ^ 32)
    (drained : world.Drained) (committed : world.server.inFlight = []) (most : Nat) :
    ∃ after received', Calmly (2 * most) world after received received' age ∧
      after.server = world.server ∧
      ∀ (index : Nat) d, after.devices[index]? = some d →
        received' index = world.server.readable world.scope ∨ most ≤ lastSeq (received' index) := by
  induction most with
  | zero => exact ⟨world, received, sound.calmly calm, rfl, fun _ _ _ => .inr (Nat.zero_le _)⟩
  | succ most ih =>
    obtain ⟨middle, between, first, still, come⟩ := ih
    obtain ⟨after, received', rest, still', further⟩ := first.sound.reads first.calm short
      (first.drained drained) (by rw [still, committed])
    have there := first.trans rest
    refine ⟨after, received', there, still'.trans still, fun index d found => ?_⟩
    have whole (begins : world.server.readable world.scope <+: received' index) :
        received' index = world.server.readable world.scope := by
      have read := (there.sound.afloat.crew.sound index d found).reads.read
      rw [there.scope, still'.trans still] at read
      exact read.eq_of_length_le begins.length_le
    obtain ⟨was, before, -⟩ := rest.dwindles index d found
    have further := further index was before
    rw [still, first.scope] at further
    rcases further with all | more
    · exact .inl (whole (all.trans (rest.forward index)))
    · rcases come index was before with all | reached
      · exact .inl (whole (all ▸ rest.forward index))
      · exact .inr (Nat.succ_le_of_lt (Nat.lt_of_le_of_lt reached more))

/-! ### Where everything has settled -/

/-- Nothing is left to push, to commit or to read. -/
structure Settled (world : World Gen) (received : Nat → List Change) : Prop where
  drained : world.Drained
  committed : world.server.inFlight = []
  caughtUp : ∀ (index : Nat) d, world.devices[index]? = some d →
    received index = world.server.readable world.scope

/-- What has settled stays so. -/
theorem Settled.lasts (settled : world.Settled received) (sound : world.Sound received age)
    (calm : world.Calm) (short : age + 1 < 2 ^ 32) (steps : Nat) :
    ∃ after received', Calmly steps world after received received' age ∧ after.Settled received' := by
  induction steps with
  | zero => exact ⟨world, received, sound.calmly calm, settled⟩
  | succ steps ih =>
    obtain ⟨middle, between, first, settled⟩ := ih
    obtain ⟨after, received', stepped, sound', progress⟩ := first.sound.step_calm first.calm short
    have last := progress.calmly stepped sound'
    have still := progress.still settled.drained settled.committed
    refine ⟨after, received', first.trans last, last.drained settled.drained,
      by rw [still, settled.committed], fun index d found => ?_⟩
    obtain ⟨was, before, -⟩ := last.dwindles index d found
    have forward := last.forward index
    rw [settled.caughtUp index was before] at forward
    have read := (sound'.afloat.crew.sound index d found).reads.read
    rw [last.scope, still] at read ⊢
    exact read.eq_of_length_le forward.length_le

omit [Chance Gen] in
/-- After so many steps the log is no longer than everybody together may have made it. -/
theorem Sound.head_le (sound : world.Sound received age) : world.server.head ≤ 5 * age := by
  have spent := sound.room.spent
  have known := (Finset.card_le_card sound.room.known).trans (card_issuedBy age)
  rw [Server.head]
  omega

/-- How many calm steps settle whatever so many steps have left. -/
def quietEnough (age : Nat) : Nat := 2 * age + 4 + 2 * (5 * age)

/-- Enough calm steps settle everything. -/
theorem Sound.settles (sound : world.Sound received age) (calm : world.Calm) (short : age + 1 < 2 ^ 32)
    (enough : quietEnough age ≤ steps) :
    ∃ after received', Calmly steps world after received received' age ∧ after.Settled received' := by
  obtain ⟨emptied, received₁, first, drained⟩ := sound.drain calm short
    (fun d member => sound.afloat.crew.outbox_le member)
  have brief : ∀ held ∈ emptied.server.inFlight, held.2 ≤ 3 + 1 :=
    first.sound.afloat.serves.brief.held
  obtain ⟨shown, received₂, second, committed⟩ := first.sound.commit first.calm short drained brief
  have drained := second.drained drained
  obtain ⟨read, received₃, third, still, come⟩ :=
    second.sound.catchUp second.calm short drained committed (5 * age)
  have settled : read.Settled received₃ := {
    drained := third.drained drained
    committed := by rw [still, committed]
    caughtUp := fun index d found => by
      rw [third.scope, still]
      rcases come index d found with all | reached
      · exact all
      · have caught := third.sound.caughtUp found
        rw [third.scope, still] at caught
        exact caught ((second.sound.afloat.serves.readable_le.trans second.sound.head_le).trans reached) }
  obtain ⟨more, split⟩ := Nat.exists_eq_add_of_le enough
  obtain ⟨after, received', last, settled⟩ := settled.lasts third.sound third.calm short more
  exact ⟨after, received', by
    rw [split]
    exact ((first.trans second).trans third).trans last, settled⟩

/-! ### Settling -/

omit [Chance Gen] in
/-- Switching the faults off is as good a place to go on from. -/
theorem Sound.calmed (sound : world.Sound received age) :
    world.calmed.Sound received age ∧ world.calmed.Calm := by
  let joins (d : SimDevice) : SimDevice := { d with online := true }
  have databases : world.calmed.databases = world.databases := by
    simp only [World.databases, World.calmed, List.map_map]
    rfl
  refine ⟨{
    afloat := {
      serves := sound.afloat.serves
      crew := sound.afloat.crew.map joins (fun _ => rfl) fun _ => rfl
      idle := fun d member => by
        obtain ⟨d, inside, rfl⟩ := List.mem_map.mp member
        exact sound.afloat.idle d inside
      flying := sound.afloat.flying }
    room := sound.room
    queued := sound.queued
    punctual := FaultRates.none_prompt
    registry := sound.registry
    watched := by rw [databases]; exact sound.watched }, rfl, rfl, fun d member => ?_⟩
  obtain ⟨d, inside, rfl⟩ := List.mem_map.mp member
  rfl

omit [Chance Gen] in
/-- A device of a settled world has read all that was ever written. -/
theorem Settled.holds (settled : world.Settled received) (sound : world.Sound received age)
    {index : Nat} {d : SimDevice} (found : world.devices[index]? = some d) :
    d.device.db.Holds world.scope (world.server.changes world.scope) := by
  have holds := (sound.afloat.crew.sound index d found).reads.holds
  rwa [settled.caughtUp index d found, (sound.afloat.serves.settled settled.committed).1] at holds

omit [Chance Gen] in
/-- Where everything has settled, convergence finds nothing to report. -/
theorem Settled.converged (settled : world.Settled received) (sound : world.Sound received age)
    (checker : Invariants) : checker.checkConvergence world.nowMs world.databases world.server
      world.scope = checker := by
  refine Invariants.checkAll_silent fun index db found => Invariants.convergence_silent.mpr ?_
  rw [World.databases, List.getElem?_map] at found
  obtain ⟨d, there, rfl⟩ := Option.map_eq_some_iff.mp found
  have serves := sound.afloat.serves
  obtain ⟨whole, head⟩ := serves.settled settled.committed
  have holds := settled.holds sound there
  have reached := holds.cursor
  rw [← whole, head, Db.position, Db.stored] at reached
  have digest := holds.digest
  rw [← whole, ← serves.digest_eq] at digest
  rw [Invariants.converged_iff, digest]
  cases stored : d.device.db.cursors.lookup world.scope with
  | none =>
    rw [stored] at reached
    refine ⟨fun _ => reached.symm, ?_, ?_⟩ <;> rintro _ ⟨⟩
  | some cursor =>
    rw [stored] at reached
    refine ⟨?_, fun _ _ => reached.ge, fun actual known => (Option.some.inj known).symm⟩
    rintro ⟨⟩

omit [Chance Gen] in
/-- Policy finds nothing to report, settled or not. -/
theorem Sound.policed (sound : world.Sound received age) (checker : Invariants) :
    checker.checkPolicy world.nowMs world.databases world.registry = checker := by
  refine Invariants.checkAll_silent fun index db found => Invariants.policy_silent.mpr ?_
  rw [World.databases, List.getElem?_map] at found
  obtain ⟨d, there, rfl⟩ := Option.map_eq_some_iff.mp found
  have owes := (sound.afloat.crew.sound index d there).owes
  refine ⟨fun draft member => ?_, owes.recovered⟩
  rw [owes.drafts draft member, sound.registry, Registry.reflecting_class]

/-- A device that has nothing left to do: it holds what the server holds, and knows what became of
every command that it queued. -/
structure Agrees (d : SimDevice) (server : Server) (scope : ScopeId) : Prop where
  drained : d.device.db.outbox = []
  rows : ∀ key, d.device.db.version key = server.rowVersionAt scope key server.head
  answered : ∀ id ∈ d.device.db.enqueued, ∃ known, server.recorded id = some known ∧
    (id, resolutionOf known.result) ∈ d.device.db.resolved

omit [Chance Gen] in
theorem Settled.agrees (settled : world.Settled received) (sound : world.Sound received age)
    {d : SimDevice} (member : d ∈ world.devices) : Agrees d world.server world.scope := by
  obtain ⟨index, found⟩ := List.getElem?_of_mem member
  have owes := (sound.afloat.crew.sound index d found).owes
  have drained := settled.drained d member
  refine ⟨drained, fun key => ?_, fun id queued => ?_⟩
  · obtain ⟨whole, head⟩ := sound.afloat.serves.settled settled.committed
    rw [whole] at head
    rw [(settled.holds sound found).version, sound.afloat.serves.expected List.prefix_rfl, head]
  · rcases (owes.ledger.known id).mp queued with waiting | resolved
    · rw [drained] at waiting
      cases waiting
    · obtain ⟨record, recorded, rfl⟩ := List.mem_map.mp resolved
      obtain ⟨known, remembered, same⟩ := owes.answered record recorded
      exact ⟨known, remembered, same ▸ recorded⟩

/-- Settling settles, and finds nothing to report. -/
theorem Sound.settleFor (sound : world.Sound received age) (short : age + 1 < 2 ^ 32)
    (enough : quietEnough age ≤ steps) : ∃ settled, world.settleFor steps = some settled ∧
      settled.invariants.violations = [] ∧
      ∀ d ∈ settled.devices, Agrees d settled.server settled.scope := by
  obtain ⟨sound', calm⟩ := sound.calmed
  obtain ⟨after, received', calmly, settled⟩ := sound'.settles calm short enough
  have judged : (after.invariants.checkConvergence after.nowMs after.databases after.server
      after.scope).checkPolicy after.nowMs after.databases after.registry = after.invariants := by
    rw [settled.converged calmly.sound, calmly.sound.policed]
  have settles : world.settleFor steps = some { after with rates := world.rates, quiet := false } := by
    rw [World.settleFor, calmly.stepped, Option.bind_some, settled.committed]
    simp only [List.length_nil, if_true, judged]
  exact ⟨_, settles, calmly.sound.watched.silent, fun d member =>
    settled.agrees calmly.sound (d := d) member⟩

/-! ### Every run -/

section Runs

variable {rates : FaultRates} {rng : Gen} {n : Nat}

/-- Whatever happens in a run, every step ends and no check finds anything. -/
theorem steps_silent (punctual : rates.Prompt) (rng : Gen) (short : n < 2 ^ 32) :
    ∃ world, (World.new rng rates).steps n = some world ∧ world.invariants.violations = [] := by
  obtain ⟨world, received, stepped, sound⟩ := (sound_new punctual rng).steps (n := n) (by omega)
  exact ⟨world, stepped, sound.watched.silent⟩

/-- What a device may be relied on for at any moment: what it holds is what the server says a
client at its cursor should, and each of its commands waits or has the server's answer. -/
structure Honest (d : SimDevice) (server : Server) (scope : ScopeId) : Prop where
  reached : (d.device.db.position scope).cursor.get ≤ server.visibleHead scope
  rows : ∀ key, d.device.db.version key =
    server.rowVersionAt scope key (d.device.db.position scope).cursor.get
  digest : (d.device.db.position scope).digest =
    liveDigest (server.upTo scope (d.device.db.position scope).cursor.get)
  healthy : d.device.engine.health = ∅ ∧ d.device.db.divergences = ∅
  ledger : d.device.db.Ledger
  answered : ∀ record ∈ d.device.db.resolved, ∃ known, server.recorded record.1 = some known ∧
    record.2 = resolutionOf known.result

/-- At every moment of every run, every device may be relied on. -/
theorem steps_honest (punctual : rates.Prompt) (short : n < 2 ^ 32)
    (ran : (World.new rng rates).steps n = some world) :
    ∀ d ∈ world.devices, Honest d world.server world.scope := by
  obtain ⟨after, received, stepped, sound⟩ := (sound_new punctual rng).steps (n := n) (by omega)
  obtain rfl := Option.some.inj (ran.symm.trans stepped)
  intro d member
  obtain ⟨index, found⟩ := List.getElem?_of_mem member
  have serves := sound.afloat.serves
  have device := sound.afloat.crew.sound index d found
  have read := device.reads.read
  have begins := read.trans (world.server.readable_begins world.scope)
  have cursor := device.reads.holds.cursor
  have upTo := serves.upTo_lastSeq begins
  exact {
    reached := by
      rw [cursor, serves.coherent.visibleHead_eq]
      exact serves.ascending.reached_mono (fun change _ => change.seq.lower) read
    rows := fun key => by rw [device.reads.holds.version, cursor, serves.expected begins]
    digest := by rw [device.reads.holds.position, cursor, upTo]
    healthy := ⟨device.reads.healthy, device.reads.undiverged⟩
    ledger := device.owes.ledger
    answered := device.owes.answered }

/-- At every moment of every run, what a device was told has been applied is in the log, once for
each command however often it was pushed, and all the rest of the log was written by others. -/
theorem steps_effects (punctual : rates.Prompt) (short : n < 2 ^ 32)
    (ran : (World.new rng rates).steps n = some world) :
    world.server.Effects n ∧ ∀ d ∈ world.devices, ∀ id serverSeq,
      (id, Resolution.applied serverSeq) ∈ d.device.db.resolved →
        ∃ seq, serverSeq = some seq ∧ world.server.Told id seq := by
  obtain ⟨after, received, stepped, sound⟩ := (sound_new punctual rng).steps (n := n) (by omega)
  obtain rfl := Option.some.inj (ran.symm.trans stepped)
  rw [Nat.zero_add] at sound
  refine ⟨sound.room.effects, fun d member id serverSeq resolved => ?_⟩
  obtain ⟨index, found⟩ := List.getElem?_of_mem member
  obtain ⟨known, recorded, same⟩ := (sound.afloat.crew.sound index d found).owes.answered _ resolved
  obtain ⟨-, outcome, decided⟩ := sound.afloat.serves.bodies id known recorded
  rw [decided] at same
  cases outcome with
  | applied seq =>
    cases same
    exact ⟨seq, rfl, known, recorded, by rw [decided]; rfl⟩
  | rejected reason => cases same
  | superseded => cases same

/-- A run that settles for long enough ends with everybody agreed, and nothing to report. -/
theorem steps_settle (punctual : rates.Prompt) (rng : Gen) (short : n + 1 < 2 ^ 32)
    (enough : quietEnough n ≤ steps) :
    ∃ settled, ((World.new rng rates).steps n).bind (World.settleFor steps) = some settled ∧
      settled.invariants.violations = [] ∧
      ∀ d ∈ settled.devices, Agrees d settled.server settled.scope := by
  obtain ⟨world, received, stepped, sound⟩ := (sound_new punctual rng).steps (n := n) (by omega)
  rw [Nat.zero_add] at sound
  rw [stepped]
  exact sound.settleFor short enough

end Runs

end World

end CredSync.Sim

namespace CredSync.Sample

open Sim

attribute [local instance] noteHashes

/-- A fortnight under the standing faults. -/
def fortnight : Option (Sim.World Rng) := (Sim.World.new (Rng.new 7) .standing).steps 20160

theorem fortnight_silent : ∃ world, fortnight = some world ∧ world.invariants.violations = [] :=
  Sim.World.steps_silent FaultRates.standing_prompt (Rng.new 7) (by decide)

theorem fortnight_honest : ∃ world, fortnight = some world ∧
    ∀ d ∈ world.devices, Sim.World.Honest d world.server world.scope := by
  obtain ⟨world, _, ran, _⟩ := (Sim.World.sound_new FaultRates.standing_prompt (Rng.new 7)).steps
    (show 0 + 20160 < 2 ^ 32 by decide)
  exact ⟨world, ran, Sim.World.steps_honest FaultRates.standing_prompt (by decide) ran⟩

theorem fortnight_effects : ∃ world, fortnight = some world ∧ world.server.Effects 20160 := by
  obtain ⟨world, _, ran, _⟩ := (Sim.World.sound_new FaultRates.standing_prompt (Rng.new 7)).steps
    (show 0 + 20160 < 2 ^ 32 by decide)
  exact ⟨world, ran, (Sim.World.steps_effects FaultRates.standing_prompt (by decide) ran).1⟩

/-- An hour of faults settles in half a day without. -/
theorem hour_settles : ∃ settled,
    ((Sim.World.new (Rng.new 7) .standing).steps 60).bind (Sim.World.settleFor 724) = some settled ∧
      settled.invariants.violations = [] ∧
      ∀ d ∈ settled.devices, Sim.World.Agrees d settled.server settled.scope :=
  Sim.World.steps_settle FaultRates.standing_prompt (Rng.new 7) (by decide) (by decide)

end CredSync.Sample
