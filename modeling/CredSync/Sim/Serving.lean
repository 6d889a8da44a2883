import CredSync.Sim.Clients
import CredSync.Sim.Dedupe
import CredSync.Sim.World

/-! The simulated server as the devices of a world use it: one scope, one entity, and one
body that every command carries. Its log only goes on, and what it has decided it never
decides again. -/

namespace CredSync

/-- The `seq` of the last of some changes, zero if there is none. -/
abbrev lastSeq (changes : List Change) : Nat :=
  KeyedLog.reached (fun change : Change => change.seq.get) 0 changes

theorem HostOutcome.result_id (id : CommandId) (outcome : HostOutcome) :
    (outcome.result id).id = id := by
  cases outcome <;> rfl

namespace Sim

/-- A command as every device of a world authors it. -/
structure Reflects (command : Command) : Prop where
  name : command.name = submitReflection
  payload : command.payload = reflection

/-- A page of a log: what came next behind its first changes when it was served. -/
structure PageOf [Hashing] (log : List Change) (scope : ScopeId) (before : List Change)
    (page : Batch) : Prop where
  placed : page.scope = scope
  within : before ++ page.changes <+: log
  nextCursor : page.nextCursor.get = lastSeq (before ++ page.changes)
  digest : page.hasMore = false → page.digest = (liveDigest (before ++ page.changes)).toHex

theorem PageOf.mono [Hashing] {log longer before : List Change} {scope : ScopeId} {page : Batch}
    (pageOf : PageOf log scope before page) (grown : log <+: longer) :
    PageOf longer scope before page :=
  ⟨pageOf.placed, pageOf.within.trans grown, pageOf.nextCursor, pageOf.digest⟩

namespace Server

variable {server middle after : Server} {scope : ScopeId} {entity : EntityName}

/-! ### What a server goes on from -/

/-- Time adds to what can be read and to what is recorded, and changes neither. -/
structure GoesOn (scope : ScopeId) (before after : Server) : Prop where
  readable : before.readable scope <+: after.readable scope
  recorded : ∀ id known, before.recorded id = some known → after.recorded id = some known

theorem GoesOn.refl (server : Server) : GoesOn scope server server :=
  ⟨List.prefix_rfl, fun _ _ known => known⟩

theorem GoesOn.trans (first : GoesOn scope server middle) (second : GoesOn scope middle after) :
    GoesOn scope server after :=
  ⟨first.readable.trans second.readable,
    fun id known found => second.recorded id known (first.recorded id known found)⟩

/-- No write is held open for more than four steps. -/
structure Brief (server : Server) : Prop where
  next : server.holdNext ≤ 4
  held : ∀ held ∈ server.inFlight, held.2 ≤ 4

/-- What every server of a world keeps. -/
structure Serves [Hashing] (server : Server) (scope : ScopeId) (entity : EntityName) : Prop where
  coherent : server.Coherent
  target : server.commandTargets.lookup submitReflection.bytes = some (entity, scope)
  whole : (server.byScope.lookup scope).getD [] = List.range server.log.length
  upserts : ∀ entry ∈ server.log, ∃ entityId, entry.change = upsertAt entry.seq entity entityId
  counted : server.nextSeq =
    KeyedLog.reached (fun entry : LogEntry => entry.seq.get) 0 server.log + 1
  bodies : ∀ id known, server.recorded id = some known →
    known.checksum = (payloadChecksum reflection).bytes ∧
      ∃ outcome : HostOutcome, known.result = outcome.result id
  held : ∀ (index : Nat) entry, server.log[index]? = some entry → entry.visible = false →
    index ∈ server.inFlight.map Prod.fst
  inside : ∀ held ∈ server.inFlight, held.1 < server.log.length
  brief : server.Brief

/-! ### Writes -/

theorem writeRow_eq {entityId : EntityId}
    (written : server.writeRow scope entity entityId = some (seq, after)) :
    seq.get = server.nextSeq ∧
      after = (({ server with nextSeq := server.nextSeq + 1 } : Server).setRow scope
        (entity, entityId) (rowVersionOf seq)).pushEntry seq scope entity entityId := by
  obtain ⟨⟨taken, moved⟩, took, same⟩ := Option.map_eq_some_iff.mp written
  cases same
  obtain ⟨equal, rfl⟩ := takeSeq_ok took
  exact ⟨equal, rfl⟩

/-! ### Commits -/

theorem filterMap_range_getElem (log : List LogEntry) :
    (List.range log.length).filterMap (fun index => log[index]?) = log := by
  induction log using List.reverseRecOn with
  | nil => rfl
  | append_singleton earlier last ih =>
    have before : (List.range earlier.length).filterMap (fun index => (earlier ++ [last])[index]?) =
        earlier := by
      refine Eq.trans (List.filterMap_congr fun index inside => ?_) ih
      exact List.getElem?_append_left (List.mem_range.mp inside)
    rw [List.length_append, List.length_singleton, List.range_succ, List.filterMap_append, before,
      List.filterMap_cons_some List.getElem?_concat_length, List.filterMap_nil]

/-- A held entry one step later: none once it is due. -/
def stillHeld (held : Nat × Nat) : Option (Nat × Nat) :=
  if held.2 ≤ 1 then none else some (held.1, held.2 - 1)

theorem stillHeld_some {held later : Nat × Nat} (waits : stillHeld held = some later) :
    later.1 = held.1 ∧ 1 < held.2 ∧ later.2 = held.2 - 1 := by
  unfold stillHeld at waits
  split at waits
  · cases waits
  · rename_i due
    cases waits
    exact ⟨rfl, Nat.lt_of_not_le due, rfl⟩

theorem commitDue_waiting (inFlight : List (Nat × Nat)) (log : List LogEntry) :
    (commitDue inFlight log).2 = inFlight.filterMap stillHeld := by
  induction inFlight generalizing log with
  | nil => rfl
  | cons held rest ih =>
    rw [commitDue, List.filterMap_cons]
    by_cases due : held.2 ≤ 1
    · have gone : stillHeld held = none := if_pos due
      rw [if_pos due, gone, ih]
    · have waits : stillHeld held = some (held.1, held.2 - 1) := if_neg due
      rw [if_neg due, waits, ← ih log]

/-- What is still held open is due a step sooner. -/
theorem advanceCommits_within {steps : Nat} (within : ∀ held ∈ server.inFlight, held.2 ≤ steps + 1) :
    ∀ held ∈ server.advanceCommits.inFlight, 0 < held.2 ∧ held.2 ≤ steps := by
  intro held member
  have waiting : server.advanceCommits.inFlight = _ := commitDue_waiting server.inFlight server.log
  rw [waiting] at member
  obtain ⟨before, known, waits⟩ := List.mem_filterMap.mp member
  obtain ⟨-, more, less⟩ := stillHeld_some waits
  have := within before known
  omega

/-- With nothing held open, there is nothing to commit. -/
theorem advanceCommits_idle (committed : server.inFlight = []) : server.advanceCommits = server := by
  obtain ⟨⟩ := server
  cases committed
  rfl

/-- What is still hidden was hidden before, and was not due. -/
theorem commitDue_hidden {inFlight : List (Nat × Nat)} {log : List LogEntry} {index : Nat}
    {entry : LogEntry} (found : (commitDue inFlight log).1[index]? = some entry)
    (hidden : entry.visible = false) :
    log[index]? = some entry ∧ ∀ remaining, (index, remaining) ∈ inFlight → 1 < remaining := by
  induction inFlight generalizing log with
  | nil => exact ⟨found, nofun⟩
  | cons held rest ih =>
    rw [commitDue] at found
    split at found
    · obtain ⟨before, later⟩ := ih found
      rw [List.getElem?_modify] at before
      obtain ⟨old, known, same⟩ := Option.map_eq_some_iff.mp before
      split at same
      · rw [← same] at hidden
        cases hidden
      · rename_i other
        refine ⟨known.trans (congrArg some same), fun remaining member => ?_⟩
        rcases List.mem_cons.mp member with first | member
        · exact absurd (congrArg Prod.fst first).symm other
        · exact later remaining member
    · rename_i waits
      obtain ⟨before, later⟩ := ih found
      refine ⟨before, fun remaining member => ?_⟩
      rcases List.mem_cons.mp member with first | member
      · rw [← first] at waits
        exact Nat.lt_of_not_le waits
      · exact later remaining member

section Serves

variable [Hashing]

/-- A write at the end of the log, held open or not. -/
theorem Serves.writes (serves : server.Serves scope entity) {entityId : EntityId}
    (written : server.writeRow scope entity entityId = some (seq, after)) :
    after.Serves scope entity ∧ GoesOn scope server after := by
  have coherent := serves.coherent.next (writeRow_writes written)
  have grows := serves.coherent.readable_grows (writeRow_writes written) scope
  have dedupe := writeRow_dedupe written
  obtain ⟨taken, rfl⟩ := writeRow_eq written
  set entry : LogEntry := ⟨seq, upsertAt seq entity entityId, decide (server.holdNext = 0)⟩
  set wrote := (({ server with nextSeq := server.nextSeq + 1 } : Server).setRow scope
    (entity, entityId) (rowVersionOf seq)).pushEntry seq scope entity entityId
  have log : wrote.log = server.log ++ [entry] := rfl
  have inFlight : wrote.inFlight =
      if 0 < server.holdNext then server.inFlight ++ [(server.log.length, server.holdNext)]
      else server.inFlight := rfl
  refine ⟨⟨coherent, serves.target, ?_, ?_, ?_, ?_, ?_, ?_, ⟨Nat.zero_le _, ?_⟩⟩, grows, ?_⟩
  · have index : (wrote.byScope.lookup scope).getD [] =
        (server.byScope.lookup scope).getD [] ++ [server.log.length] := by
      change (((server.byScope.insert scope _).lookup scope).getD []) = _
      rw [Finmap.lookup_insert, Option.getD_some]
      rfl
    rw [index, serves.whole, log, List.length_append, List.length_singleton, List.range_succ]
  · intro old member
    rw [log] at member
    rcases List.mem_append.mp member with member | member
    · exact serves.upserts old member
    · cases List.mem_singleton.mp member
      exact ⟨entityId, rfl⟩
  · rw [log, KeyedLog.reached, List.getLast?_concat]
    exact congrArg (· + 1) taken.symm
  · intro id known found
    rw [recorded_dedupe dedupe] at found
    exact serves.bodies id known found
  · intro index old found hidden
    rw [inFlight]
    rw [log, List.getElem?_append] at found
    split at found
    · have before := serves.held index old found hidden
      split
      · rw [List.map_append]
        exact List.mem_append_left _ before
      · exact before
    · rename_i beyond
      obtain ⟨bound, same⟩ := List.getElem?_eq_some_iff.mp found
      have last : index = server.log.length := by
        simp only [List.length_singleton] at bound
        omega
      rw [List.getElem_singleton] at same
      rw [← same] at hidden
      rw [if_pos (Nat.pos_of_ne_zero (of_decide_eq_false hidden)), List.map_append]
      exact List.mem_append_right _ (List.mem_singleton.mpr last)
  · intro open' member
    rw [inFlight] at member
    rw [log, List.length_append, List.length_singleton]
    split at member
    · rcases List.mem_append.mp member with member | member
      · exact Nat.lt_succ_of_lt (serves.inside open' member)
      · cases List.mem_singleton.mp member
        exact Nat.lt_succ_self _
    · exact Nat.lt_succ_of_lt (serves.inside open' member)
  · intro open' member
    rw [inFlight] at member
    split at member
    · rcases List.mem_append.mp member with member | member
      · exact serves.brief.held open' member
      · cases List.mem_singleton.mp member
        exact serves.brief.next
    · exact serves.brief.held open' member
  · intro id known found
    rw [recorded_dedupe dedupe]
    exact found

/-- Commits show what was hidden, and are known by nothing else. -/
theorem Serves.commits (serves : server.Serves scope entity) :
    server.advanceCommits.Serves scope entity ∧ GoesOn scope server server.advanceCommits := by
  have settles := commitDue_settles server.inFlight server.log
  have writes : server.Writes server.advanceCommits := .committed settles rfl rfl rfl rfl
  have log : server.advanceCommits.log = (commitDue server.inFlight server.log).1 := rfl
  have length := settles.length_eq
  refine ⟨⟨serves.coherent.next writes, serves.target, ?_, ?_, ?_, serves.bodies, ?_, ?_,
    ⟨serves.brief.next, ?_⟩⟩, serves.coherent.readable_grows writes scope, fun _ _ found => found⟩
  · rw [log, ← length]
    exact serves.whole
  · intro entry member
    obtain ⟨index, inside, same⟩ := List.getElem_of_mem member
    have settled := settles_at settles index
    rw [← log, List.getElem?_eq_getElem inside, same] at settled
    cases before : server.log[index]? with
    | none =>
      rw [before] at settled
      cases settled
    | some old =>
      rw [before] at settled
      cases settled with
      | some settled =>
        rw [settled.change, settled.seq]
        exact serves.upserts old (List.mem_of_getElem? before)
  · have seqs : server.advanceCommits.log.map (fun entry => entry.seq.get) =
        server.log.map fun entry => entry.seq.get :=
      map_settles settles fun _ _ settled => by rw [settled.seq]
    rw [KeyedLog.reached, ← List.getLast?_map, seqs, List.getLast?_map]
    exact serves.counted
  · intro index entry found hidden
    obtain ⟨before, waits⟩ := commitDue_hidden found hidden
    obtain ⟨held, member, rfl⟩ := List.mem_map.mp (serves.held index entry before hidden)
    have waiting : server.advanceCommits.inFlight = _ := commitDue_waiting server.inFlight server.log
    rw [waiting]
    exact List.mem_map.mpr ⟨(held.1, held.2 - 1), List.mem_filterMap.mpr ⟨held, member,
      if_neg (Nat.not_le.mpr (waits held.2 member))⟩, rfl⟩
  · intro held member
    have waiting : server.advanceCommits.inFlight = _ := commitDue_waiting server.inFlight server.log
    rw [waiting] at member
    obtain ⟨before, known, waits⟩ := List.mem_filterMap.mp member
    rw [log, ← length, (stillHeld_some waits).1]
    exact serves.inside before known
  · intro held member
    exact (advanceCommits_within (fun held known => (serves.brief.held held known).trans
      (Nat.le_succ 4)) held member).2

theorem Serves.holds (serves : server.Serves scope entity) {delay : Nat} (brief : delay ≤ 4) :
    (server.holdNextWrite delay).Serves scope entity ∧
      GoesOn scope server (server.holdNextWrite delay) := by
  have writes : server.Writes (server.holdNextWrite delay) := .quiet ⟨rfl, rfl, rfl, rfl⟩ le_rfl
  refine ⟨⟨serves.coherent.next writes, serves.target, serves.whole, serves.upserts, serves.counted,
    serves.bodies, serves.held, serves.inside, ?_, serves.brief.held⟩,
    serves.coherent.readable_grows writes scope, fun _ _ found => found⟩
  change (if delay = 0 then 1 else delay) ≤ 4
  split
  · decide
  · exact brief

/-! ### Answers -/

/-- Whatever a server is asked about for the first time is recorded, and answered so ever
after. -/
theorem Serves.remembers (serves : server.Serves scope entity) {command : Command}
    (reflects : Reflects command) (absent : server.recorded command.id = none) (outcome : HostOutcome) :
    (server.remember command (outcome.result command.id)).Serves scope entity ∧
      GoesOn scope server (server.remember command (outcome.result command.id)) := by
  have writes : server.Writes (server.remember command (outcome.result command.id)) :=
    .quiet ⟨rfl, rfl, rfl, rfl⟩ le_rfl
  refine ⟨⟨serves.coherent.next writes, serves.target, serves.whole, serves.upserts, serves.counted,
    ?_, serves.held, serves.inside, ⟨serves.brief.next, serves.brief.held⟩⟩, serves.coherent.readable_grows writes scope, ?_⟩
  · intro id known found
    rw [recorded_remember] at found
    split at found
    · rename_i same
      cases found
      rw [reflects.payload, same]
      exact ⟨rfl, outcome, rfl⟩
    · exact serves.bodies id known found
  · intro id known found
    rw [recorded_remember, if_neg ?_]
    · exact found
    · rintro rfl
      rw [absent] at found
      cases found

/-- A command is answered with what is recorded for it from then on. -/
theorem Serves.applies (serves : server.Serves scope entity) {command : Command} {roll : Nat}
    {result : CommandResult} (reflects : Reflects command)
    (answered : server.applyCommand command roll = some (result, after)) :
    after.Serves scope entity ∧ GoesOn scope server after ∧ result.id = command.id ∧
      ∃ known, after.recorded command.id = some known ∧ known.result = result := by
  rcases applyCommand_cases answered with
    ⟨absent, outcome, asked, decided, rfl, rfl⟩ | ⟨known, found, ⟨-, rfl, still⟩ | ⟨other, -, -⟩⟩
  · have unknown : asked.recorded command.id = none := by
      rw [recorded_dedupe (hostDecision_dedupe decided), absent]
    obtain ⟨serves', goes⟩ : asked.Serves scope entity ∧ GoesOn scope server asked := by
      unfold hostDecision at decided
      rw [reflects.name, serves.target] at decided
      simp only at decided
      split at decided
      · obtain ⟨⟨seq, moved⟩, written, same⟩ := Option.map_eq_some_iff.mp decided
        cases same
        exact serves.writes written
      · split at decided <;> cases decided <;> exact ⟨serves, .refl server⟩
    obtain ⟨remembers, goes'⟩ := serves'.remembers reflects unknown outcome
    refine ⟨remembers, goes.trans goes', HostOutcome.result_id command.id outcome, ?_⟩
    rw [recorded_remember, if_pos rfl]
    exact ⟨_, rfl, rfl⟩
  · obtain ⟨-, outcome, same⟩ := serves.bodies _ _ found
    rw [still]
    exact ⟨serves, .refl server, by rw [same, HostOutcome.result_id], known, found, rfl⟩
  · rw [reflects.payload] at other
    exact absurd (serves.bodies _ _ found).1 other

/-! ### Room for more -/

/-- The `seq` of every entry of the log. -/
def seqs (server : Server) : List Seq := server.log.map LogEntry.seq

/-- A command was answered that its change took a `seq`. -/
def Told (server : Server) (id : CommandId) (seq : Seq) : Prop :=
  ∃ known, server.recorded id = some known ∧ known.result.serverSeq = some seq

/-- The log holds what was answered to be applied, once, and otherwise no more than so many
changes that nobody asked for. -/
structure Effects (server : Server) (writes : Nat) : Prop where
  entered : ∀ id seq, server.Told id seq → seq ∈ server.seqs
  once : ∀ id other seq, server.Told id seq → server.Told other seq → id = other
  others : ∃ theirs : List Seq, theirs.length ≤ writes ∧
    ∀ seq ∈ server.seqs, seq ∈ theirs ∨ ∃ id, server.Told id seq

/-- A server has taken no more `seq`s than there were writes that nobody asked for, and
commands it was asked about. -/
structure Room (server : Server) (writes : Nat) (issued : Finset CommandId) : Prop where
  spent : server.nextSeq ≤ 1 + writes + server.dedupe.keys.card
  known : server.dedupe.keys ⊆ issued
  effects : server.Effects writes

variable {writes : Nat} {issued : Finset CommandId}

omit [Hashing] in
/-- As long as there are `seq`s for everything that may be asked, a write gets one. -/
theorem Room.writeRow (room : server.Room writes issued) (positive : 0 < server.nextSeq)
    (enough : 1 + writes + issued.card ≤ Limits.seqMax) (scope : ScopeId) (entity : EntityName)
    (entityId : EntityId) : ∃ seq after, server.writeRow scope entity entityId = some (seq, after) ∧
      after.nextSeq = server.nextSeq + 1 := by
  have fits : Limits.seqMin ≤ server.nextSeq ∧ server.nextSeq ≤ Limits.seqMax :=
    ⟨positive, room.spent.trans ((Nat.add_le_add_left (Finset.card_le_card room.known) _).trans enough)⟩
  have taken : (BoundedNum.new server.nextSeq : Except ProtocolError Seq) =
      .ok ⟨server.nextSeq, fits.1, fits.2⟩ := dif_pos fits
  have written : ∃ seq after, server.writeRow scope entity entityId = some (seq, after) := by
    rw [Server.writeRow, takeSeq, taken]
    exact ⟨_, _, rfl⟩
  obtain ⟨seq, after, written⟩ := written
  refine ⟨seq, after, written, ?_⟩
  rw [(writeRow_eq written).2]
  rfl

omit [Hashing] in
theorem told_dedupe (dedupe : after.dedupe = server.dedupe) {id : CommandId} {seq : Seq} :
    after.Told id seq ↔ server.Told id seq := by
  rw [Told, Told, recorded_dedupe dedupe]

omit [Hashing] in
/-- Changes that nobody asked for. -/
theorem Effects.grown (effects : server.Effects writes) (dedupe : after.dedupe = server.dedupe)
    {new : List Seq} (seqs : after.seqs = server.seqs ++ new) {writes' : Nat}
    (more : writes + new.length ≤ writes') : after.Effects writes' where
  entered id seq told := by
    rw [seqs]
    exact List.mem_append_left _ (effects.entered id seq ((told_dedupe dedupe).mp told))
  once id other seq told told' :=
    effects.once id other seq ((told_dedupe dedupe).mp told) ((told_dedupe dedupe).mp told')
  others := by
    obtain ⟨theirs, few, all⟩ := effects.others
    refine ⟨theirs ++ new, by rw [List.length_append]; omega, fun seq member => ?_⟩
    rw [seqs] at member
    rcases List.mem_append.mp member with before | added
    · rcases all seq before with outside | ⟨id, told⟩
      · exact .inl (List.mem_append_left _ outside)
      · exact .inr ⟨id, (told_dedupe dedupe).mpr told⟩
    · exact .inl (List.mem_append_right _ added)

/-- A decision about a command, with the change it has made if it has made one. -/
theorem Effects.answered (effects : server.Effects writes) {asked : Server} {command : Command}
    (absent : server.recorded command.id = none) (dedupe : asked.dedupe = server.dedupe)
    {result : CommandResult} (seqs : asked.seqs = server.seqs ++ result.serverSeq.toList)
    (fresh : ∀ seq, result.serverSeq = some seq → seq ∉ server.seqs) :
    (asked.remember command result).Effects writes := by
  -- what was told before, or now
  have told {id : CommandId} {seq : Seq} : (asked.remember command result).Told id seq ↔
      server.Told id seq ∨ id = command.id ∧ result.serverSeq = some seq := by
    rw [Told, Told, recorded_remember, recorded_dedupe dedupe]
    split
    · rename_i same
      rw [same, absent]
      simp
    · rename_i other
      simp [other]
  have whole : (asked.remember command result).seqs = server.seqs ++ result.serverSeq.toList := seqs
  refine ⟨fun id seq now => ?_, fun id other seq now now' => ?_, ?_⟩
  · rw [whole]
    rcases told.mp now with before | ⟨-, answered⟩
    · exact List.mem_append_left _ (effects.entered id seq before)
    · exact List.mem_append_right _ (by rw [answered]; exact List.mem_singleton_self seq)
  · rcases told.mp now with before | ⟨mine, answered⟩ <;>
      rcases told.mp now' with before' | ⟨mine', answered'⟩
    · exact effects.once id other seq before before'
    · exact absurd (effects.entered id seq before) (fresh seq answered')
    · exact absurd (effects.entered other seq before') (fresh seq answered)
    · exact mine.trans mine'.symm
  · obtain ⟨theirs, few, all⟩ := effects.others
    refine ⟨theirs, few, fun seq member => ?_⟩
    rw [whole] at member
    rcases List.mem_append.mp member with before | added
    · exact (all seq before).imp_right fun ⟨id, before⟩ => ⟨id, told.mpr (.inl before)⟩
    · exact .inr ⟨command.id, told.mpr (.inr ⟨rfl, Option.mem_toList.mp added⟩)⟩

omit [Hashing] in
theorem Room.same (room : server.Room writes issued) (nextSeq : after.nextSeq = server.nextSeq)
    (dedupe : after.dedupe = server.dedupe) (seqs : after.seqs = server.seqs) :
    after.Room writes issued where
  spent := by rw [nextSeq, dedupe]; exact room.spent
  known := by rw [dedupe]; exact room.known
  effects := room.effects.grown dedupe (seqs.trans (List.append_nil _).symm) le_rfl

omit [Hashing] in
theorem Room.grown (room : server.Room writes issued) {writes' : Nat} {issued' : Finset CommandId}
    (more : writes ≤ writes') (wider : issued ⊆ issued') : server.Room writes' issued' :=
  ⟨room.spent.trans (by omega), room.known.trans wider,
    room.effects.grown rfl (List.append_nil _).symm more⟩

omit [Hashing] in
theorem seqs_advanceCommits (server : Server) : server.advanceCommits.seqs = server.seqs :=
  map_settles (commitDue_settles server.inFlight server.log) fun _ _ settled => settled.seq

omit [Hashing] in
theorem seqs_writeRow {entityId : EntityId}
    (written : server.writeRow scope entity entityId = some (seq, after)) :
    after.seqs = server.seqs ++ [seq] := by
  rw [(writeRow_eq written).2]
  exact List.map_append

/-- A `seq` that is taken is in no entry yet. -/
theorem Serves.fresh (serves : server.Serves scope entity) {entityId : EntityId}
    (written : server.writeRow scope entity entityId = some (seq, after)) : seq ∉ server.seqs := by
  intro taken
  obtain ⟨entry, member, rfl⟩ := List.mem_map.mp taken
  have below := serves.coherent.below entry member
  rw [(writeRow_eq written).1] at below
  exact lt_irrefl _ below

theorem Serves.positive (serves : server.Serves scope entity) : 0 < server.nextSeq := by
  rw [serves.counted]
  exact Nat.succ_pos _

/-- A change that nobody asked for. -/
theorem Serves.externalChange (serves : server.Serves scope entity) (room : server.Room writes issued)
    (enough : 1 + writes + issued.card ≤ Limits.seqMax) (row : Fin 8) :
    ∃ after, server.externalChange scope entity row = some after ∧
      after.Serves scope entity ∧ GoesOn scope server after ∧ after.Room (writes + 1) issued := by
  obtain ⟨seq, after, written, next⟩ :=
    room.writeRow serves.positive enough scope entity (rowNamed row)
  obtain ⟨serves', goes⟩ := serves.writes written
  refine ⟨after, by rw [Server.externalChange, written]; rfl, serves', goes, ?_, ?_, ?_⟩
  · rw [next, writeRow_dedupe written]
    have spent := room.spent
    omega
  · rw [writeRow_dedupe written]
    exact room.known
  · exact room.effects.grown (writeRow_dedupe written) (seqs_writeRow written) le_rfl

/-- A command of those that may be asked about gets an answer. -/
theorem Serves.answers (serves : server.Serves scope entity) (room : server.Room writes issued)
    (enough : 1 + writes + issued.card ≤ Limits.seqMax) {command : Command} (reflects : Reflects command)
    (ours : command.id ∈ issued) (roll : Nat) :
    ∃ result after, server.applyCommand command roll = some (result, after) ∧
      after.Room writes issued := by
  cases absent : server.recorded command.id with
  | some known =>
    have same := (serves.bodies _ known absent).1
    rw [← reflects.payload] at same
    exact ⟨known.result, server, applyCommand_replayed absent same, room⟩
  | none =>
    -- the decision writes at most one change, and is remembered
    obtain ⟨outcome, asked, decided, spent, seqs, fresh⟩ : ∃ outcome asked,
        server.hostDecision command roll = some (outcome, asked) ∧
          asked.nextSeq ≤ server.nextSeq + 1 ∧
          asked.seqs = server.seqs ++ (outcome.result command.id).serverSeq.toList ∧
          ∀ seq, (outcome.result command.id).serverSeq = some seq → seq ∉ server.seqs := by
      rw [hostDecision, reflects.name, serves.target]
      simp only
      split
      · obtain ⟨seq, after, written, next⟩ := room.writeRow serves.positive enough
          scope entity (rowNamed (Fin.ofNat 8 command.id.bytes[15].toNat))
        refine ⟨.applied seq, after, by rw [append, written]; rfl, next.le, seqs_writeRow written,
          fun taken same => ?_⟩
        cases same
        exact serves.fresh written
      · split <;> exact ⟨_, _, rfl, Nat.le_succ _, (List.append_nil _).symm, nofun⟩
    have dedupe := hostDecision_dedupe decided
    set result := outcome.result command.id
    refine ⟨result, asked.remember command result, ?_, ?_⟩
    · rw [applyCommand, absent]
      simp only [Dedupe.decide, decided, Option.map_some, result]
    have keys : (asked.remember command result).dedupe.keys = insert command.id server.dedupe.keys := by
      rw [← dedupe]
      ext id
      rw [Finset.mem_insert, Finmap.mem_keys, Finmap.mem_keys]
      exact Finmap.mem_insert
    have unknown : command.id ∉ server.dedupe.keys := by
      rw [Finmap.mem_keys]
      exact Finmap.lookup_eq_none.mp (Option.map_eq_none_iff.mp absent)
    refine ⟨?_, ?_, room.effects.answered absent dedupe seqs fresh⟩
    · rw [keys, Finset.card_insert_of_notMem unknown]
      have before := room.spent
      change asked.nextSeq ≤ _
      omega
    · rw [keys]
      exact Finset.insert_subset ours room.known

/-! ### Reads -/

theorem Serves.entries_eq (serves : server.Serves scope entity) :
    server.entries scope = server.log := by
  rw [entries, serves.whole, filterMap_range_getElem]

/-- Everything in the log is an upsert of the one entity. -/
theorem Serves.upserted (serves : server.Serves scope entity) {change : Change}
    (member : change ∈ server.changes scope) : ∃ seq entityId, change = upsertAt seq entity entityId := by
  obtain ⟨entry, inside, rfl⟩ := List.mem_map.mp member
  obtain ⟨entityId, written⟩ := serves.upserts entry (mem_log_of_entries inside)
  exact ⟨entry.seq, entityId, written⟩

/-- The first changes of the log are those up to the last of them. -/
theorem Serves.upTo_lastSeq (serves : server.Serves scope entity) {received : List Change}
    (read : received <+: server.changes scope) : server.upTo scope (lastSeq received) = received := by
  have ascending := serves.coherent.ascending_changes scope
  obtain ⟨rest, whole⟩ := read
  rw [upTo, ← whole]
  rw [← whole] at ascending
  exact (ascending.cut fun change _ => change.seq.lower).symm

/-- A client that has received the first changes holds what is expected at its cursor. -/
theorem Serves.expected (serves : server.Serves scope entity) {received : List Change}
    (read : received <+: server.changes scope) (key : RowKey) :
    KeyedLog.live (received.map Change.entry) key =
      server.rowVersionAt scope key (lastSeq received) := by
  have upTo := serves.upTo_lastSeq read
  rw [serves.coherent.rowVersionAt_eq, ← KeyedLog.lookup_liveTable, lookup_folded]
  rw [Server.upTo] at upTo
  rw [upTo]
  cases last : (received.filter fun change => change.key = key).getLast? with
  | none => rfl
  | some change =>
    have member := List.mem_of_mem_filter (List.mem_of_getLast? last)
    obtain ⟨seq, entityId, rfl⟩ := serves.upserted (read.subset member)
    rfl

theorem Serves.digest_eq (serves : server.Serves scope entity) :
    server.digest scope = liveDigest (server.readable scope) := by
  have rows := (serves.coherent.rowsAt_iff scope (server.visibleHead scope)).mpr ?_
  · rw [digest, rows, serves.coherent.upTo_head]
    rfl
  · intro change member _ deleted
    obtain ⟨seq, entityId, rfl⟩ := serves.upserted (KeyedLog.mem_upTo.mp member).1
    cases deleted

theorem Serves.readable_le (serves : server.Serves scope entity) :
    lastSeq (server.readable scope) ≤ server.head := by
  rcases KeyedLog.reached_eq_low_or_mem (fun change : Change => change.seq.get) 0
      (server.readable scope) with ⟨-, nothing⟩ | ⟨change, member, reached⟩
  · exact nothing.le.trans (Nat.zero_le _)
  · obtain ⟨entry, inside, rfl⟩ := List.mem_map.mp ((server.readable_begins scope).subset member)
    have logged := mem_log_of_entries inside
    have below := serves.coherent.below entry logged
    rw [lastSeq, reached, (serves.coherent.honest entry logged).1, head]
    omega

/-- With nothing held open, all of the log can be read, to its head. -/
theorem Serves.settled (serves : server.Serves scope entity) (committed : server.inFlight = []) :
    server.readable scope = server.changes scope ∧
      lastSeq (server.readable scope) = server.head := by
  have shown : ∀ entry ∈ server.entries scope, entry.visible = true := by
    intro entry member
    rw [serves.entries_eq] at member
    obtain ⟨index, found⟩ := List.getElem?_of_mem member
    by_contra hidden
    have waits := serves.held index entry found (Bool.eq_false_of_not_eq_true hidden)
    rw [committed] at waits
    cases waits
  have whole : server.readable scope = server.changes scope := by
    rw [readable, changes, List.takeWhile_eq_self_iff.mpr shown]
  refine ⟨whole, ?_⟩
  rw [whole, lastSeq, changes, serves.entries_eq, KeyedLog.reached, List.getLast?_map, head,
    serves.counted, Nat.add_sub_cancel, KeyedLog.reached, Option.map_map]
  cases last : server.log.getLast? with
  | none => rfl
  | some entry =>
    exact congrArg (·.get) (serves.coherent.honest entry (List.mem_of_getLast? last)).1

/-- A client that has received the first changes is served a page of what comes next, and
something if there is anything. -/
theorem Serves.page (serves : server.Serves scope entity) {received : List Change} {cursor : Cursor}
    (read : received <+: server.readable scope) (reached : cursor.get = lastSeq received)
    {rowLimit : Nat} (some : 0 < rowLimit) (budgetBytes : Nat) :
    PageOf (server.readable scope) scope received
        (server.pullScope ⟨scope, cursor⟩ rowLimit budgetBytes) ∧
      ((server.pullScope ⟨scope, cursor⟩ rowLimit budgetBytes).changes = [] →
        received = server.readable scope) := by
  obtain ⟨later, split⟩ := read
  obtain ⟨left, rest, next, last⟩ :=
    serves.coherent.pull_page split.symm reached rowLimit budgetBytes
  refine ⟨⟨rfl, ⟨left, ?_⟩, ?_, fun finished => ?_⟩, fun nothing => ?_⟩
  · rw [List.append_assoc, ← rest, split]
  · rw [next, reached, ← KeyedLog.reached_append]
  · have whole := rest
    rw [last finished, List.append_nil] at whole
    rw [← whole, split, ← serves.digest_eq]
    exact pullScope_digest server ⟨scope, cursor⟩ rowLimit budgetBytes
  · by_contra behind
    refine serves.coherent.pull_progress split.symm reached some budgetBytes (fun none => ?_) nothing
    rw [none, List.append_nil] at split
    exact behind split

end Serves

end Server

end Sim

end CredSync
