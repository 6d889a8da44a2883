import CredSync.Library.Run
import CredSync.Server.Dedupe

/-! Forwarding, call beside call. Several calls may find no record of a command and ask
the host, each hearing something else; the insert that lands first decides, and every
other call is told what it recorded, or nothing. -/

namespace CredSync

/-! ### Recording in two steps -/

namespace Dedupe

variable [Hashing]

/-- `INSERT … ON CONFLICT DO NOTHING`, and whether it inserted. -/
def insertOnce (table : ResultTable) (command : Command) (result : CommandResult) :
    Bool × ResultTable :=
  match table.lookup command.id with
  | none => (true, table.insert command.id (rowOf command result))
  | some _ => (false, table)

/-- What the loser of an insert reads back. -/
def existing (table : ResultTable) (command : Command) : Except ServerError CommandResult :=
  match classify table command with
  | .error e => .error e
  | .ok (.replay existing) => .ok existing
  | .ok (.mutated recorded submitted) =>
    .error (.corrupt <| s!"command {asText command.id.display} lost an insert race to a " ++
      s!"record with checksum {asText recorded}, but this submission's payload hashes to " ++
      s!"{asText submitted}")
  | .ok .fresh =>
    .error (.corrupt <| s!"command {asText command.id.display} lost an insert race and then " ++
      "found no record at all")

/-- Recording is the insert and, if it lost, the read. -/
theorem record_eq (table : ResultTable) (command : Command) (result : CommandResult) :
    record table command result =
      match insertOnce table command result with
      | (true, table) => (.ok result, table)
      | (false, table) => (existing table command, table) := by
  unfold record insertOnce existing
  cases table.lookup command.id with
  | none => rfl
  | some row =>
    simp only
    split <;> simp_all

/-- The insert lands where nothing is stored, and changes nothing elsewhere. -/
theorem insertOnce_cases (table : ResultTable) (command : Command) (result : CommandResult) :
    table.lookup command.id = none ∧
        insertOnce table command result =
          (true, table.insert command.id (rowOf command result)) ∨
      (∃ row, table.lookup command.id = some row) ∧
        insertOnce table command result = (false, table) := by
  unfold insertOnce
  cases table.lookup command.id with
  | none => exact .inl ⟨rfl, rfl⟩
  | some row => exact .inr ⟨⟨row, rfl⟩, rfl⟩

/-- A replay is of the recorded result, for the recorded checksum. -/
theorem decide_replay {command : Command} {known : Option Recorded}
    (replayed : decide command known = .replay result) :
    known = some ⟨(payloadChecksum command.payload).bytes, result⟩ := by
  unfold decide at replayed
  cases known with
  | none => cases replayed
  | some known =>
    simp only at replayed
    split at replayed
    · cases replayed
    · rename_i same
      cases replayed
      rw [← not_not.mp same]

theorem existing_ok {table : ResultTable} {command : Command} (readable : Readable table)
    (read : existing table command = .ok result) :
    recorded table command.id = some ⟨(payloadChecksum command.payload).bytes, result⟩ := by
  unfold existing at read
  rw [classify_recorded readable] at read
  cases decided : decide command (recorded table command.id) with
  | fresh =>
    rw [decided] at read
    cases read
  | replay known =>
    rw [decided] at read
    cases read
    exact decide_replay decided
  | mutated _ _ =>
    rw [decided] at read
    cases read

end Dedupe

/-! ### Calls side by side -/

/-- Where a forward call stands. -/
inductive ForwardStage where
  | submitted
  | asking
  | deciding (result : CommandResult)
  | losing
  | returned (answer : Except ServerError Forwarded)

/-- One forward call, and whether the record is its own. -/
structure ForwardCall where
  command : Command
  stage : ForwardStage := .submitted
  landed : Bool := false

/-- What one call hears next, of the database or of the host. An insert may commit and
be reported as failed. -/
inductive ForwardReply where
  | lookup
  | host (outcome : Except HostError HostOutcome)
  | insert
  | reread
  | fail (e : ServerError)
  | insertUnacknowledged (e : ServerError)

namespace ForwardCall

variable [Hashing]

/-- One step of a call: where it stands then, and what it leaves of the store. -/
def advance (table : ResultTable) (call : ForwardCall) (reply : ForwardReply) :
    Option (ForwardCall × ResultTable) :=
  match call.stage, reply with
  | .submitted, .lookup =>
    some ({ call with stage :=
      match Dedupe.classify table call.command with
      | .error e => .returned (.error e)
      | .ok decision =>
        match forwardKnown call.command decision with
        | some answer => .returned (.ok answer)
        | none => .asking }, table)
  | .asking, .host (.error error) =>
    some ({ call with stage := .returned (.ok (.unresolved error)) }, table)
  | .asking, .host (.ok outcome) =>
    some ({ call with stage := .deciding (outcome.result call.command.id) }, table)
  | .deciding result, .insert =>
    match Dedupe.insertOnce table call.command result with
    | (true, table) =>
        some ({ call with stage := .returned (.ok (.decided result)), landed := true }, table)
    | (false, table) => some ({ call with stage := .losing }, table)
  | .losing, .reread =>
    some ({ call with
      stage := .returned ((Dedupe.existing table call.command).map .decided) }, table)
  | .deciding result, .insertUnacknowledged e =>
    let (landed, table) := Dedupe.insertOnce table call.command result
    some ({ call with stage := .returned (.error e), landed := landed }, table)
  | .submitted, .fail e | .deciding _, .fail e | .losing, .fail e =>
    some ({ call with stage := .returned (.error e) }, table)
  | _, _ => none

end ForwardCall

/-- The outcome a call has told its caller as the recorded one. -/
def ForwardCall.tells (call : ForwardCall) : Option CommandResult :=
  match call.stage with
  | .returned (.ok (.decided result)) | .returned (.ok (.replayed result)) => some result
  | _ => none

/-- The result store and the calls that share it. -/
structure Forwarding (Caller : Type*) where
  table : ResultTable := ∅
  calls : Caller → Option ForwardCall := fun _ => none

inductive ForwardEvent (Caller : Type*) where
  | submit (caller : Caller) (command : Command)
  | reply (caller : Caller) (reply : ForwardReply)

namespace Forwarding

variable {Caller : Type*} [DecidableEq Caller] [Hashing]

def put (state : Forwarding Caller) (caller : Caller) (call : ForwardCall) (table : ResultTable) :
    Forwarding Caller :=
  ⟨table, Function.update state.calls caller (some call)⟩

/-- A new call, or the next step of one. -/
def next (state : Forwarding Caller) : ForwardEvent Caller → Option (Forwarding Caller)
  | .submit caller command =>
    match state.calls caller with
    | none => some (state.put caller { command := command } state.table)
    | some _ => none
  | .reply caller reply =>
    match state.calls caller with
    | none => none
    | some call => (call.advance state.table reply).map fun (call, table) =>
        state.put caller call table

def Steps (before : Forwarding Caller) (event : ForwardEvent Caller) (after : Forwarding Caller) :
    Prop :=
  before.next event = some after

end Forwarding

/-! ### One step -/

section Step

variable [Hashing] {table table' : ResultTable} {call call' : ForwardCall} {reply : ForwardReply}

/-- What holds of a call at every point: it tells what is recorded, and the record is its
own if its insert landed. -/
structure ForwardCall.Sound (table : ResultTable) (call : ForwardCall) : Prop where
  valid : ∀ result, call.stage = .deciding result →
    result.id = call.command.id ∧ result.validate = .ok ()
  told : ∀ result ∈ call.tells, Dedupe.recorded table call.command.id =
    some ⟨(payloadChecksum call.command.payload).bytes, result⟩
  owns : call.landed = true → ∃ result, Dedupe.recorded table call.command.id =
    some ⟨(payloadChecksum call.command.payload).bytes, result⟩
  ended : call.landed = true → ∃ answer, call.stage = .returned answer ∧
    ∀ e, answer ≠ .ok (.unresolved e)

/-- What one step of a call makes of the store: nothing, or the one record. -/
inductive ForwardCall.Stores (table : ResultTable) (call call' : ForwardCall) :
    ResultTable → Prop where
  | nothing (landed : call'.landed = call.landed) : Stores table call call' table
  | record (result : CommandResult) (named : result.id = call.command.id)
      (valid : result.validate = .ok ()) (absent : table.lookup call.command.id = none)
      (landed : call'.landed = true) :
      Stores table call call' (table.insert call.command.id (Dedupe.rowOf call.command result))

/-- A record is never replaced. -/
theorem ForwardCall.Stores.grows {id : CommandId} (stores : call.Stores table call' table')
    (found : table.lookup id = some row) : table'.lookup id = some row := by
  cases stores with
  | nothing => exact found
  | record result named valid absent landed =>
    have other : id ≠ call.command.id := by
      rintro rfl
      rw [absent] at found
      cases found
    rw [Finmap.lookup_insert_of_ne _ other]
    exact found

theorem ForwardCall.Stores.readable (stores : call.Stores table call' table')
    (readable : Dedupe.Readable table) : Dedupe.Readable table' := by
  cases stores with
  | nothing => exact readable
  | record result named valid absent landed =>
    intro id row found
    rw [Table.lookup_insert_if] at found
    split at found
    · rename_i same
      cases found
      rw [same, ← named]
      exact ⟨result, Dedupe.readResult_rowOf call.command valid⟩
    · exact readable id row found

theorem ForwardCall.Stores.recorded {id : CommandId} (stores : call.Stores table call' table')
    (known : Dedupe.recorded table id = some found) : Dedupe.recorded table' id = some found := by
  cases held : table.lookup id with
  | none =>
    rw [Dedupe.recorded, held] at known
    cases known
  | some row =>
    rw [Dedupe.recorded, stores.grows held]
    rw [Dedupe.recorded, held] at known
    exact known

/-- What an insert stores is what is read back. -/
theorem Dedupe.recorded_insert (table : ResultTable) (command : Command) {result : CommandResult}
    (named : result.id = command.id) (valid : result.validate = .ok ()) :
    Dedupe.recorded (table.insert command.id (Dedupe.rowOf command result)) command.id =
      some ⟨(payloadChecksum command.payload).bytes, result⟩ := by
  have back : Dedupe.readResult command.id (Dedupe.rowOf command result) = .ok result := by
    rw [← named]
    exact Dedupe.readResult_rowOf command valid
  rw [Dedupe.recorded, Finmap.lookup_insert]
  simp only [back]
  rfl

/-- Whatever another call stores, what a call was told stays recorded. -/
theorem ForwardCall.Sound.beside {other other' : ForwardCall} (sound : call.Sound table)
    (stores : other.Stores table other' table') : call.Sound table' where
  valid := sound.valid
  told := fun result tells => stores.recorded (sound.told result tells)
  owns := fun landed => by
    obtain ⟨result, known⟩ := sound.owns landed
    exact ⟨result, stores.recorded known⟩
  ended := sound.ended

/-- Only a call that has returned can have made the record. -/
theorem ForwardCall.Sound.open (sound : call.Sound table)
    (running : ∀ answer, call.stage ≠ .returned answer) : call.landed = false := by
  cases landed : call.landed with
  | false => rfl
  | true =>
    obtain ⟨answer, returned, _⟩ := sound.ended landed
    exact absurd returned (running answer)

/-- A call whose record is not its own only has to tell the truth. -/
theorem ForwardCall.sound_of_unlanded (unlanded : call.landed = false)
    (valid : ∀ result, call.stage = .deciding result →
      result.id = call.command.id ∧ result.validate = .ok ())
    (told : ∀ result ∈ call.tells, Dedupe.recorded table call.command.id =
      some ⟨(payloadChecksum call.command.payload).bytes, result⟩) : call.Sound table where
  valid := valid
  told := told
  owns := fun landed => by
    rw [unlanded] at landed
    cases landed
  ended := fun landed => by
    rw [unlanded] at landed
    cases landed

/-- A call that returns with its insert landed has made the one record, and tells it or
nothing. -/
theorem ForwardCall.landed_sound {result : CommandResult} (named : result.id = call.command.id)
    (valid : result.validate = .ok ()) (absent : table.lookup call.command.id = none)
    {answer : Except ServerError Forwarded} (resolved : ∀ e, answer ≠ .ok (.unresolved e))
    (tells : ∀ told ∈ ForwardCall.tells ⟨call.command, .returned answer, true⟩, told = result) :
    call.Stores table ⟨call.command, .returned answer, true⟩
        (table.insert call.command.id (Dedupe.rowOf call.command result)) ∧
      ForwardCall.Sound (table.insert call.command.id (Dedupe.rowOf call.command result))
        ⟨call.command, .returned answer, true⟩ := by
  have stored := Dedupe.recorded_insert table call.command named valid
  refine ⟨.record result named valid absent rfl, ?_⟩
  constructor
  · nofun
  · intro told member
    rw [tells told member]
    exact stored
  · exact fun _ => ⟨result, stored⟩
  · exact fun _ => ⟨answer, rfl, resolved⟩

omit [Hashing] in
/-- The answer a lookup ends a call with is of the record. -/
theorem forwardKnown_replayed (known : forwardKnown command decision = some answer)
    (tells : ForwardCall.tells ⟨command, .returned (.ok answer), landed⟩ = some result) :
    decision = .replay result := by
  cases decision with
  | fresh => cases known
  | replay existing =>
    cases known
    cases tells
    rfl
  | mutated _ _ =>
    cases known
    cases tells

/-- One step of a call stores nothing or the one record, and keeps the call sound. -/
theorem ForwardCall.advance_sound (readable : Dedupe.Readable table) (sound : call.Sound table)
    (advanced : call.advance table reply = some (call', table')) :
    call'.command = call.command ∧ call.Stores table call' table' ∧ call'.Sound table' := by
  have quiet : ∀ stage, (∀ answer, call.stage ≠ .returned answer) →
      (∀ result, stage = .deciding result → result.id = call.command.id ∧
        result.validate = .ok ()) →
      (∀ result ∈ tells { call with stage := stage }, Dedupe.recorded table call.command.id =
        some ⟨(payloadChecksum call.command.payload).bytes, result⟩) →
      call.Stores table { call with stage := stage } table ∧
        Sound table { call with stage := stage } :=
    fun stage running valid told =>
      ⟨.nothing rfl, sound_of_unlanded (sound.open running) valid told⟩
  unfold advance at advanced
  split at advanced
  · -- the lookup
    rename_i stage
    cases advanced
    rw [Dedupe.classify_recorded readable]
    refine ⟨rfl, quiet _ (by simp [stage]) ?_ ?_⟩
    · intro result deciding
      simp only at deciding
      split at deciding <;> cases deciding
    · intro result tells
      simp only at tells
      split at tells
      · rename_i answer known
        exact Dedupe.decide_replay (forwardKnown_replayed known tells)
      · cases tells
  · -- the host could not be asked
    rename_i stage
    cases advanced
    exact ⟨rfl, quiet _ (by simp [stage]) nofun nofun⟩
  · -- the host decided
    rename_i outcome stage
    cases advanced
    refine ⟨rfl, quiet _ (by simp [stage]) ?_ nofun⟩
    intro result deciding
    cases deciding
    exact outcome.result_valid call.command.id
  · -- the insert
    rename_i result stage
    obtain ⟨named, valid⟩ := sound.valid result stage
    rcases Dedupe.insertOnce_cases table call.command result with ⟨absent, done⟩ | ⟨_, done⟩
    · rw [done] at advanced
      cases advanced
      refine ⟨rfl, landed_sound named valid absent nofun ?_⟩
      intro told tells
      cases tells
      rfl
    · rw [done] at advanced
      cases advanced
      exact ⟨rfl, quiet _ (by simp [stage]) nofun nofun⟩
  · -- the loser reads the winner's record
    rename_i stage
    cases advanced
    refine ⟨rfl, quiet _ (by simp [stage]) nofun ?_⟩
    intro result tells
    cases read : Dedupe.existing table call.command with
    | error e =>
      rw [read] at tells
      cases tells
    | ok known =>
      rw [read] at tells
      cases tells
      exact Dedupe.existing_ok readable read
  · -- an insert that is not acknowledged
    rename_i result e stage
    obtain ⟨named, valid⟩ := sound.valid result stage
    rcases Dedupe.insertOnce_cases table call.command result with ⟨absent, done⟩ | ⟨_, done⟩
    · rw [done] at advanced
      cases advanced
      exact ⟨rfl, landed_sound named valid absent nofun nofun⟩
    · rw [done] at advanced
      cases advanced
      have unlanded := sound.open (by simp [stage])
      exact ⟨rfl, .nothing unlanded.symm, sound_of_unlanded rfl nofun nofun⟩
  · rename_i stage
    cases advanced
    exact ⟨rfl, quiet _ (by simp [stage]) nofun nofun⟩
  · rename_i stage
    cases advanced
    exact ⟨rfl, quiet _ (by simp [stage]) nofun nofun⟩
  · rename_i stage
    cases advanced
    exact ⟨rfl, quiet _ (by simp [stage]) nofun nofun⟩
  · cases advanced

end Step

/-! ### Runs -/

namespace Forwarding

variable {Caller : Type*} [DecidableEq Caller] [Hashing] {state after : Forwarding Caller}
  {event : ForwardEvent Caller}

/-- What every step keeps: each call is sound, and each record is one call's own. -/
structure Agrees (state : Forwarding Caller) : Prop where
  readable : Dedupe.Readable state.table
  sound : ∀ caller call, state.calls caller = some call → call.Sound state.table
  winner : ∀ id known, Dedupe.recorded state.table id = some known →
    ∃ caller call, state.calls caller = some call ∧ call.landed = true ∧ call.command.id = id
  once : ∀ caller call caller' call', state.calls caller = some call →
    state.calls caller' = some call' → call.landed = true → call'.landed = true →
    call.command.id = call'.command.id → caller = caller'

omit [DecidableEq Caller] in
theorem agrees_empty : ({} : Forwarding Caller).Agrees where
  readable := Dedupe.readable_empty
  sound := fun _ _ impossible => nomatch impossible
  winner := fun id known found => by
    rw [Dedupe.recorded, Finmap.lookup_empty] at found
    cases found
  once := fun _ _ _ _ impossible => nomatch impossible

omit [Hashing] in
theorem put_calls (state : Forwarding Caller) (caller other : Caller) (call : ForwardCall)
    (table : ResultTable) :
    (state.put caller call table).calls other =
      if other = caller then some call else state.calls other :=
  Function.update_apply ..

theorem Agrees.submit (agrees : state.Agrees) (fresh : state.calls caller = none)
    (command : Command) : (state.put caller { command := command } state.table).Agrees := by
  have other : ∀ holder call, state.calls holder = some call → holder ≠ caller := by
    rintro holder call held rfl
    rw [fresh] at held
    cases held
  have old : ∀ holder call, (state.put caller { command := command } state.table).calls holder =
      some call → call.landed = true → state.calls holder = some call := by
    intro holder call held landed
    rw [put_calls] at held
    split at held
    · cases held
      cases landed
    · exact held
  constructor
  · exact agrees.readable
  · intro holder call held
    rw [put_calls] at held
    split at held
    · cases held
      exact ForwardCall.sound_of_unlanded rfl nofun nofun
    · exact agrees.sound holder call held
  · intro id known found
    obtain ⟨holder, call, held, landed, named⟩ := agrees.winner id known found
    exact ⟨holder, call, by rw [put_calls, if_neg (other holder call held), held], landed, named⟩
  · intro holder call holder' call' held held' landed landed' same
    exact agrees.once holder call holder' call' (old _ _ held landed) (old _ _ held' landed')
      landed landed' same

theorem Agrees.reply {reply : ForwardReply} (agrees : state.Agrees) (held : state.calls caller = some call)
    (advanced : call.advance state.table reply = some (call', table')) :
    (state.put caller call' table').Agrees := by
  have sound := agrees.sound caller call held
  obtain ⟨command, stores, sound'⟩ := ForwardCall.advance_sound agrees.readable sound advanced
  constructor
  · exact stores.readable agrees.readable
  · intro holder other found
    rw [put_calls] at found
    split at found
    · cases found
      exact sound'
    · exact (agrees.sound holder other found).beside stores
  · intro id known found
    have now : (state.put caller call' table').calls caller = some call' := by
      rw [put_calls, if_pos rfl]
    cases stores with
    | nothing landed =>
      obtain ⟨holder, other, earlier, own, named⟩ := agrees.winner id known found
      by_cases here : holder = caller
      · subst here
        rw [held] at earlier
        cases earlier
        exact ⟨holder, call', now, landed.trans own, by rw [command, named]⟩
      · exact ⟨holder, other, by rw [put_calls, if_neg here, earlier], own, named⟩
    | record result named valid absent landed =>
      by_cases same : id = call.command.id
      · exact ⟨caller, call', now, landed, by rw [command, same]⟩
      · have before : Dedupe.recorded state.table id = some known := by
          rw [Dedupe.recorded] at found ⊢
          change (match (state.table.insert call.command.id _).lookup id with
            | none => none
            | some row => _) = _ at found
          rw [Finmap.lookup_insert_of_ne _ same] at found
          exact found
        obtain ⟨holder, other, earlier, own, named⟩ := agrees.winner id known before
        have elsewhere : holder ≠ caller := by
          rintro rfl
          rw [held] at earlier
          cases earlier
          exact same named.symm
        exact ⟨holder, other, by rw [put_calls, if_neg elsewhere, earlier], own, named⟩
  · -- two records of one id would mean that the later insert found the earlier
    have rival : ∀ holder other, holder ≠ caller → state.calls holder = some other →
        other.landed = true → other.command.id = call'.command.id → call'.landed = false := by
      intro holder other elsewhere earlier own same
      rw [command] at same
      cases stores with
      | nothing landed =>
        rw [landed]
        cases mine : call.landed with
        | false => rfl
        | true => exact absurd (agrees.once holder other caller call earlier held own mine same) elsewhere
      | record result named valid absent landed =>
        obtain ⟨told, known⟩ := (agrees.sound holder other earlier).owns own
        rw [same, Dedupe.recorded, absent] at known
        cases known
    intro holder other holder' other' found found' own own' same
    rw [put_calls] at found found'
    split at found
    · split at found'
      · rename_i here here'
        exact here.trans here'.symm
      · rename_i here elsewhere
        cases found
        rw [rival holder' other' elsewhere found' own' same.symm] at own
        cases own
    · split at found'
      · rename_i elsewhere here
        cases found'
        rw [rival holder other elsewhere found own same] at own'
        cases own'
      · exact agrees.once holder other holder' other' found found' own own' same

theorem Agrees.next (agrees : state.Agrees) (step : Steps state event after) :
    after.Agrees ∧ ∀ id row, state.table.lookup id = some row → after.table.lookup id = some row := by
  unfold Steps Forwarding.next at step
  cases event with
  | submit caller command =>
    simp only at step
    split at step
    · rename_i fresh
      cases step
      exact ⟨agrees.submit fresh command, fun _ _ found => found⟩
    · cases step
  | reply caller reply =>
    simp only at step
    split at step
    · cases step
    · rename_i call held
      obtain ⟨⟨call', table'⟩, advanced, rfl⟩ := Option.map_eq_some_iff.mp step
      have sound := agrees.sound caller call held
      obtain ⟨_, stores, _⟩ := ForwardCall.advance_sound agrees.readable sound advanced
      exact ⟨agrees.reply held advanced, fun id row found => stores.grows found⟩

theorem Agrees.run {events : List (ForwardEvent Caller)} (agrees : state.Agrees)
    (run : Transition.Run Steps state events after) :
    after.Agrees ∧ ∀ id row, state.table.lookup id = some row → after.table.lookup id = some row := by
  induction run with
  | done => exact ⟨agrees, fun _ _ found => found⟩
  | next taken _ ih =>
    obtain ⟨middle, grows⟩ := agrees.next taken
    obtain ⟨final, further⟩ := ih middle
    exact ⟨final, fun id row found => further id row (grows id row found)⟩

theorem reply_steps {reply : ForwardReply} (held : state.calls caller = some call)
    (advanced : call.advance state.table reply = some (call', table')) :
    Steps state (.reply caller reply) (state.put caller call' table') := by
  unfold Steps Forwarding.next
  simp only [held, advanced, Option.map_some]

/-- A call that no other comes between returns what `forward` returns, and leaves in the
store what it leaves. -/
theorem forward_alone (state : Forwarding Caller) {caller : Caller}
    (fresh : state.calls caller = none) (command : Command)
    (outcome : Except HostError HostOutcome) :
    ∃ events after landed, Transition.Run Steps state events after ∧
      after.table = (forward state.table command outcome).2 ∧
      after.calls caller =
        some ⟨command, .returned (forward state.table command outcome).1, landed⟩ := by
  have submitted : Steps state (.submit caller command)
      (state.put caller { command := command } state.table) := by
    unfold Steps Forwarding.next
    simp only [fresh]
  have own : ∀ call table, (state.put caller call table).calls caller = some call :=
    fun call table => by rw [put_calls, if_pos rfl]
  have step : ∀ call table reply call' table',
      call.advance table reply = some (call', table') →
      Steps (state.put caller call table) (.reply caller reply) (state.put caller call' table') := by
    intro call table reply call' table' advanced
    have moved := reply_steps (own call table) advanced
    simpa [put] using moved
  unfold forward
  cases classified : Dedupe.classify state.table command with
  | error e =>
    have looked := step { command := command } state.table .lookup
      ⟨command, .returned (.error e), false⟩ state.table (by simp [ForwardCall.advance, classified])
    exact ⟨_, _, _, .next submitted (.single looked), rfl, own _ _⟩
  | ok decision =>
    cases known : forwardKnown command decision with
    | some answer =>
      have looked := step { command := command } state.table .lookup
        ⟨command, .returned (.ok answer), false⟩ state.table
        (by simp [ForwardCall.advance, classified, known])
      simp only [known]
      exact ⟨_, _, _, .next submitted (.single looked), rfl, own _ _⟩
    | none =>
      have looked := step { command := command } state.table .lookup ⟨command, .asking, false⟩
        state.table (by simp [ForwardCall.advance, classified, known])
      simp only [known]
      cases outcome with
      | error e =>
        have failed := step ⟨command, .asking, false⟩ state.table (.host (.error e))
          ⟨command, .returned (.ok (.unresolved e)), false⟩ state.table rfl
        exact ⟨_, _, _, .next submitted (.next looked (.single failed)), rfl, own _ _⟩
      | ok outcome =>
        have decided := step ⟨command, .asking, false⟩ state.table (.host (.ok outcome))
          ⟨command, .deciding (outcome.result command.id), false⟩ state.table rfl
        simp only [forwardFresh, Dedupe.record_eq]
        rcases Dedupe.insertOnce_cases state.table command (outcome.result command.id) with
          ⟨_, done⟩ | ⟨_, done⟩
        · have inserted := step ⟨command, .deciding (outcome.result command.id), false⟩ state.table
            .insert ⟨command, .returned (.ok (.decided (outcome.result command.id))), true⟩ _
            (by simp only [ForwardCall.advance, done]; rfl)
          rw [done]
          exact ⟨_, _, _, .next submitted (.next looked (.next decided (.single inserted))), rfl,
            own _ _⟩
        · have lost := step ⟨command, .deciding (outcome.result command.id), false⟩ state.table
            .insert ⟨command, .losing, false⟩ state.table (by simp only [ForwardCall.advance, done])
          have reread := step ⟨command, .losing, false⟩ state.table .reread
            ⟨command, .returned ((Dedupe.existing state.table command).map .decided), false⟩ _ rfl
          rw [done]
          cases read : Dedupe.existing state.table command with
          | error e | ok known =>
            rw [read] at reread
            simp only [read]
            exact ⟨_, _, false, .next submitted (.next looked (.next decided (.next lost
              (.single reread)))), rfl, own _ _⟩

/-- However many calls share the store, and however their steps, the host's answers and
the database's failures fall: a record never changes, and is one call's own; whoever is
told an outcome is told the recorded one; a call whose host could not be asked has
recorded nothing, and while no call has, the next to look up is free to ask and the next
to insert records; and a call whose body differs from the recorded one is told no
recorded outcome. -/
theorem forwards_agree (events later : List (ForwardEvent Caller))
    (middle state : Forwarding Caller) (run : Transition.Run Steps {} events middle)
    (rest : Transition.Run Steps middle later state) :
    (∀ id row, middle.table.lookup id = some row → state.table.lookup id = some row) ∧
    (∀ id known, Dedupe.recorded state.table id = some known → ∃ caller call,
      state.calls caller = some call ∧ call.landed = true ∧ call.command.id = id) ∧
    (∀ caller call caller' call', state.calls caller = some call →
      state.calls caller' = some call' → call.landed = true → call'.landed = true →
      call.command.id = call'.command.id → caller = caller') ∧
    (∀ caller call result, state.calls caller = some call → call.tells = some result →
      (Dedupe.recorded state.table call.command.id).map (·.result) = some result) ∧
    (∀ caller call e, state.calls caller = some call →
      call.stage = .returned (.ok (.unresolved e)) → call.landed = false) ∧
    (∀ caller call, state.calls caller = some call →
      (∀ other call', state.calls other = some call' → call'.command.id = call.command.id →
        call'.landed = false) →
      (call.stage = .submitted → Steps state (.reply caller .lookup)
        (state.put caller { call with stage := .asking } state.table)) ∧
      ∀ result, call.stage = .deciding result → Steps state (.reply caller .insert)
        (state.put caller
          { call with stage := .returned (.ok (.decided result)), landed := true }
          (state.table.insert call.command.id (Dedupe.rowOf call.command result)))) ∧
    (∀ winner call loser call', state.calls winner = some call →
      state.calls loser = some call' → call.landed = true → call'.command.id = call.command.id →
      (payloadChecksum call'.command.payload = payloadChecksum call.command.payload →
        call'.command.payload = call.command.payload) →
      call'.command.payload ≠ call.command.payload → call'.tells = none) := by
  have agrees := (agrees_empty.run run).1
  obtain ⟨agreed, grows⟩ := agrees.run rest
  refine ⟨grows, agreed.winner, agreed.once, ?_, ?_, ?_, ?_⟩
  · intro caller call result held tells
    rw [(agreed.sound caller call held).told result tells]
    rfl
  · intro caller call e held unresolved
    cases landed : call.landed with
    | false => rfl
    | true =>
      obtain ⟨answer, returned, resolved⟩ := (agreed.sound caller call held).ended landed
      rw [unresolved] at returned
      cases returned
      exact absurd rfl (resolved e)
  · intro caller call held unrecorded
    have absent : Dedupe.recorded state.table call.command.id = none := by
      cases known : Dedupe.recorded state.table call.command.id with
      | none => rfl
      | some found =>
        obtain ⟨other, call', held', landed, named⟩ := agreed.winner _ found known
        rw [unrecorded other call' held' named] at landed
        cases landed
    have empty := Dedupe.recorded_none agreed.readable absent
    constructor
    · intro submitted
      apply reply_steps held
      simp only [ForwardCall.advance, submitted, Dedupe.classify_recorded agreed.readable, absent]
      rfl
    · intro result deciding
      apply reply_steps held
      simp only [ForwardCall.advance, deciding, Dedupe.insertOnce, empty]
  · intro winner call loser call' held held' landed same collides differs
    cases tells : call'.tells with
    | none => rfl
    | some result =>
      obtain ⟨own, known⟩ := (agreed.sound winner call held).owns landed
      have told := (agreed.sound loser call' held').told result tells
      rw [same, known] at told
      have checksums := congrArg Recorded.checksum (Option.some.inj told)
      exact absurd (collides (HexString.ext checksums.symm)) differs

end Forwarding

namespace Sample

attribute [local instance] bodyHashes

/-- Two calls with one body and one with another find no record; the host answers all
three, and the first to insert had it rejected. -/
def racing : List (ForwardEvent Nat) :=
  [.submit 0 (submission titleNote body), .submit 1 (submission titleNote body),
    .submit 2 (submission titleNote otherBody), .reply 0 .lookup, .reply 1 .lookup,
    .reply 2 .lookup, .reply 0 (.host (.ok .superseded)),
    .reply 1 (.host (.ok (.applied 1))),
    .reply 2 (.host (.ok (.applied 2))), .reply 0 .insert,
    .reply 1 .insert, .reply 2 .insert, .reply 2 .reread, .reply 1 .reread]

theorem racing_agrees : ∃ state : Forwarding Nat,
    Transition.Run Forwarding.Steps {} racing state ∧
    ∃ call result, state.calls 1 = some call ∧ call.tells = some result ∧
      (Dedupe.recorded state.table call.command.id).map (·.result) = some result := by
  have followed : (Transition.follow (fun _ _ => true) Forwarding.next {} racing).any (fun state =>
      ((state.calls 1).bind ForwardCall.tells).isSome) = true := by
    decide +kernel
  have taken : ∀ (before : Forwarding Nat) event after, true = true →
      before.next event = some after → Forwarding.Steps before event after :=
    fun _ _ _ _ moved => moved
  obtain ⟨state, run, test⟩ := Transition.Run.of_follow_any taken followed
  obtain ⟨result, told⟩ := Option.isSome_iff_exists.mp test
  obtain ⟨call, held, tells⟩ := Option.bind_eq_some_iff.mp told
  refine ⟨state, run, call, result, held, tells, ?_⟩
  exact (Forwarding.forwards_agree racing [] state state run .done).2.2.2.1 1 call result held tells

end Sample

end CredSync
