import CredSync.Core.OutboxLedger
import CredSync.Core.Upgrade
import CredSync.Server.Version

/-! A protocol that is rolled out: the app and the service are updated each at its own time. The
service refuses an app that speaks no version of its window, and the app then holds its pushes
until it is updated, or started again. -/

namespace CredSync

structure Rollout where
  device : Device
  app : ProtocolVersion
  service : VersionPolicy

/-- What happens during a rollout. The service may answer whatever it was pushed at any time,
which is one of the calls. -/
inductive RolloutEvent where
  | call (faults : Faults) (call : ClientCall)
  | push (faults : Faults) (compressedLen : Bytes → Nat) (budgetBytes : Nat)
  | update (app : ProtocolVersion)
  | restart (app : ProtocolVersion) (registry : Registry) (migrations : Migrations)
      (scopes : List ScopeId)
  | deploy (service : VersionPolicy)

/-- Whether the app comes back to the service as if it had not been refused. -/
def RolloutEvent.wakes : RolloutEvent → Bool
  | .update _ | .restart .. => true
  | _ => false

namespace Rollout

variable [Hashing]

/-- What the service decides of a push, if there is anything to push. -/
def asks (rollout : Rollout) (faults : Faults) (compressedLen : Bytes → Nat) (budgetBytes : Nat) :
    Option Negotiated :=
  match (rollout.device.buildPush faults compressedLen rollout.app budgetBytes).1 with
  | .ok (some request) => some (rollout.service.negotiate request.protocol)
  | .ok none | .error _ => none

/-- The envelope a refused push is answered with. -/
def refused (rollout : Rollout) : RolloutEvent → Option ForcedUpgrade
  | .push faults compressedLen budgetBytes =>
    match rollout.asks faults compressedLen budgetBytes with
    | some (.refused envelope) => some envelope
    | some .accepted | none => none
  | _ => none

def next (rollout : Rollout) (event : RolloutEvent) : Rollout :=
  match event with
  | .call faults call => { rollout with device := rollout.device.call faults call }
  | .push faults compressedLen budgetBytes =>
    let device := (rollout.device.buildPush faults compressedLen rollout.app budgetBytes).2
    { rollout with device := (rollout.refused event).elim device device.onUpgradeRequired }
  | .update app => { rollout with app := app, device := rollout.device.upgradeCompleted }
  | .restart app registry migrations scopes =>
    { rollout with
      app := app
      device := Device.restart registry migrations scopes rollout.device.db }
  | .deploy service => { rollout with service := service }

/-- What the app does by itself at an event. -/
def made (rollout : Rollout) : RolloutEvent → Option ClientEvent
  | .call faults call => some (.call faults call)
  | .push faults compressedLen budgetBytes =>
    some (.call faults (.buildPush compressedLen rollout.app budgetBytes))
  | .restart _ registry migrations scopes => some (.restart registry migrations scopes)
  | .update _ | .deploy _ => none

/-- What the app does by itself, as if no service ever refused it. -/
def calls (rollout : Rollout) : List RolloutEvent → List ClientEvent
  | [] => []
  | event :: rest => (rollout.made event).toList ++ (rollout.next event).calls rest

/-- A push that was refused: by which service, in which words. -/
structure Refusal where
  app : ProtocolVersion
  service : VersionPolicy
  envelope : ForcedUpgrade

def refusals (rollout : Rollout) : List RolloutEvent → List Refusal
  | [] => []
  | event :: rest =>
    ((rollout.refused event).map (⟨rollout.app, rollout.service, ·⟩)).toList ++
      (rollout.next event).refusals rest

end Rollout

/-! ### An app that is never refused -/

/-- Prompts for an upgrade, and reports of the commands that a push held back. -/
def Telemetry.ofPushes : Telemetry → Bool
  | .upgradeRequired .. | .commandHeld .. => true
  | .rowQuarantined .. | .scopeUnhealable .. | .scopeDiverged .. => false

/-- What is reported of anything but pushes. -/
def Device.told (device : Device) : List Telemetry :=
  device.engine.effects.filter fun report => !report.ofPushes

/-- A device beside one that is never refused: they differ in the gate, and in what they report of
their pushes. -/
inductive Device.Beside : Device → Device → Prop where
  | under {plain : Device} (opened : plain.engine.upgradeRequired = none)
      (upgrade : Option ForcedUpgrade) (effects : List Telemetry)
      (told : (plain.under upgrade effects).told = plain.told) :
      Beside (plain.under upgrade effects) plain

variable {gated plain : Device}

theorem Device.Beside.refl (opened : plain.engine.upgradeRequired = none) : plain.Beside plain :=
  .under opened plain.engine.upgradeRequired plain.engine.effects rfl

theorem Device.Beside.db (beside : gated.Beside plain) : gated.db = plain.db := by
  cases beside with
  | under => rfl

theorem Device.Beside.told (beside : gated.Beside plain) : gated.told = plain.told := by
  cases beside with
  | under _ _ _ told => exact told

/-- Devices that report the same go on to report the same. -/
theorem Device.told_append {after after' : Device} {tail : List Telemetry}
    (reported : after.engine.effects = plain.engine.effects ++ tail)
    (reported' : after'.engine.effects = gated.engine.effects ++ tail)
    (told : gated.told = plain.told) : after'.told = after.told := by
  unfold Device.told at told ⊢
  rw [reported, reported', List.filter_append, List.filter_append, told]

/-- Reports of commands held back are reports of pushes. -/
theorem Device.told_held {after : Device} {held : List (CommandId × SchemaVersion × String)}
    (reported : after.engine.effects = plain.engine.effects ++ held.map heldTelemetry) :
    after.told = plain.told := by
  have none : (held.map heldTelemetry).filter (fun report => !report.ofPushes) = [] :=
    List.filter_eq_nil_iff.mpr fun report member => by
      obtain ⟨one, _, rfl⟩ := List.mem_map.mp member
      simp [heldTelemetry, Telemetry.ofPushes]
  rw [Device.told, reported, List.filter_append, none, List.append_nil, Device.told]

section Beside

variable [Hashing] (faults : Faults)

theorem Device.Beside.push (beside : gated.Beside plain) (compressedLen : Bytes → Nat)
    (protocol : ProtocolVersion) (budgetBytes : Nat) :
    (gated.buildPush faults compressedLen protocol budgetBytes).1 =
      (if gated.engine.upgradeRequired.isSome then
        (plain.buildPush faults compressedLen protocol budgetBytes).1.map fun _ => none
      else (plain.buildPush faults compressedLen protocol budgetBytes).1) ∧
    (gated.buildPush faults compressedLen protocol budgetBytes).2.Beside
      (plain.buildPush faults compressedLen protocol budgetBytes).2 := by
  cases beside with
  | under opened upgrade effects told =>
    have opened' : (plain.buildPush faults compressedLen protocol budgetBytes).2.engine.upgradeRequired =
        none :=
      (plain.call_upgrade faults (.buildPush compressedLen protocol budgetBytes)).trans opened
    obtain ⟨held, reported, run⟩ :=
      plain.buildPush_under faults opened compressedLen protocol budgetBytes upgrade effects
    have plainly := told_held reported
    rw [run]
    cases upgrade with
    | none =>
      refine ⟨rfl, .under opened' none _ ?_⟩
      exact told_append reported rfl told
    | some envelope =>
      refine ⟨rfl, .under opened' (some envelope) effects ?_⟩
      exact told.trans plainly.symm

theorem Device.Beside.call (beside : gated.Beside plain) (call : ClientCall) :
    gated.reply faults call =
      (if gated.engine.upgradeRequired.isSome then (plain.reply faults call).withheld
      else plain.reply faults call) ∧
    (gated.call faults call).Beside (plain.call faults call) := by
  by_cases push : ∃ compressedLen protocol budgetBytes,
      call = .buildPush compressedLen protocol budgetBytes
  · obtain ⟨compressedLen, protocol, budgetBytes, rfl⟩ := push
    obtain ⟨replies, beside⟩ := beside.push faults compressedLen protocol budgetBytes
    refine ⟨?_, beside⟩
    simp only [reply, replies]
    split
    · cases (plain.buildPush faults compressedLen protocol budgetBytes).1 <;> rfl
    · rfl
  · have other : ∀ compressedLen protocol budgetBytes,
        call ≠ .buildPush compressedLen protocol budgetBytes :=
      fun compressedLen protocol budgetBytes same => push ⟨compressedLen, protocol, budgetBytes, same⟩
    have kept : (plain.reply faults call).withheld = plain.reply faults call := by
      cases call with
      | buildPush compressedLen protocol budgetBytes =>
        exact absurd rfl (other compressedLen protocol budgetBytes)
      | _ => rfl
    cases beside with
    | under opened upgrade effects told =>
      obtain ⟨tail, reported, run⟩ := plain.blind_call faults other
      obtain ⟨replies, after⟩ := Prod.ext_iff.mp (run upgrade effects)
      refine ⟨by simpa only [kept, ite_self] using replies, ?_⟩
      simp only at after
      rw [after]
      exact .under ((plain.call_upgrade faults call).trans opened) upgrade _
        (told_append reported rfl told)

omit [Hashing] in
theorem Device.Beside.prompted (beside : gated.Beside plain) (envelope : ForcedUpgrade) :
    (gated.onUpgradeRequired envelope).Beside plain := by
  cases beside with
  | under opened upgrade effects told =>
    refine .under opened (some envelope) (effects ++ [_]) ?_
    rw [← told, Device.told, Device.told, Device.under, List.filter_append]
    simp [Device.under, Telemetry.ofPushes]

omit [Hashing] in
theorem Device.Beside.completed (beside : gated.Beside plain) :
    gated.upgradeCompleted.Beside plain := by
  cases beside with
  | under opened upgrade effects told => exact .under opened none effects told

omit [Hashing] in
theorem Device.restart_opened (registry : Registry) (migrations : Migrations)
    (scopes : List ScopeId) (db : Db) :
    (Device.restart registry migrations scopes db).engine.upgradeRequired = none := by
  obtain ⟨restored, health, same⟩ := Device.restart_engine registry migrations scopes db
  rw [same]

end Beside

/-! ### Whole rollouts -/

section Runs

variable [Hashing] {rollout : Rollout}

theorem Rollout.next_beside (beside : rollout.device.Beside plain) (event : RolloutEvent) :
    (rollout.next event).device.Beside ((rollout.made event).toList.foldl Device.react plain) := by
  cases event with
  | call faults call => exact (beside.call faults call).2
  | push faults compressedLen budgetBytes =>
    have pushed := (beside.push faults compressedLen rollout.app budgetBytes).2
    unfold Rollout.next
    simp only
    cases rollout.refused (.push faults compressedLen budgetBytes) with
    | none => exact pushed
    | some envelope => exact pushed.prompted envelope
  | update app => exact beside.completed
  | restart app registry migrations scopes =>
    have same : (rollout.next (.restart app registry migrations scopes)).device =
        Device.restart registry migrations scopes plain.db := by
      rw [← beside.db]
      rfl
    rw [same]
    exact .refl (Device.restart_opened registry migrations scopes plain.db)
  | deploy service => exact beside

theorem Rollout.run_beside (beside : rollout.device.Beside plain) (events : List RolloutEvent) :
    (events.foldl Rollout.next rollout).device.Beside
      ((rollout.calls events).foldl Device.react plain) := by
  induction events generalizing rollout plain with
  | nil => exact beside
  | cons event rest ih =>
    rw [List.foldl_cons, Rollout.calls, List.foldl_append]
    exact ih (Rollout.next_beside beside event)

/-- A forced upgrade withholds pushes and does nothing else: whatever the service refuses, in every
course of calls, pushes, updates, restarts and deployments, storage is what it would be if no push
had ever been refused, so is what is reported of anything but pushes, and so is what any next call
returns, except that a push is withheld while the app is refused. -/
theorem upgrades_only_withhold_pushes (rollout : Rollout)
    (opened : rollout.device.engine.upgradeRequired = none) (events : List RolloutEvent) :
    let device := (events.foldl Rollout.next rollout).device
    let plain := (rollout.calls events).foldl Device.react rollout.device
    device.db = plain.db ∧ device.told = plain.told ∧
      ∀ faults call, device.reply faults call =
        if device.engine.upgradeRequired.isSome then (plain.reply faults call).withheld
        else plain.reply faults call := by
  have beside := Rollout.run_beside (.refl opened) events
  exact ⟨beside.db, beside.told, fun faults call => (beside.call faults call).1⟩

/-- A refusal that tells the app what would work, and which side is behind. -/
def Rollout.Refusal.Tells (refusal : Rollout.Refusal) : Prop :=
  refusal.service.Tells refusal.app refusal.envelope

/-- What one event may do to the gate: a push that is refused closes it, an update or a restart
opens it, and nothing else moves it. -/
inductive Rollout.Gate (before after : Rollout) : Option ForcedUpgrade → Bool → Prop where
  | kept (app : after.app = before.app)
      (same : after.device.engine.upgradeRequired = before.device.engine.upgradeRequired) :
      Gate before after none false
  | closed (envelope : ForcedUpgrade) (app : after.app = before.app)
      (opened : before.device.engine.upgradeRequired = none)
      (prompts : after.device.engine.upgradeRequired = some envelope)
      (tells : before.service.Tells before.app envelope) : Gate before after (some envelope) false
  | opened (opened : after.device.engine.upgradeRequired = none) : Gate before after none true

omit [Hashing] in
/-- A push that is built is of the app's version, and is not withheld. -/
theorem Device.buildPush_asks {device : Device} {faults : Faults} {compressedLen : Bytes → Nat}
    {protocol : ProtocolVersion} {budgetBytes : Nat} {request : PushRequest}
    (built : (device.buildPush faults compressedLen protocol budgetBytes).1 = .ok (some request)) :
    request.protocol = protocol ∧ device.engine.upgradeRequired = none := by
  obtain ⟨outbox, doubt, reread⟩ := device.refreshOutboxIfSuspect_eq faults
  unfold buildPush at built
  cases read : device.refreshOutboxIfSuspect faults with
  | mk outcome fresh =>
    rw [read] at built reread
    cases outcome with
    | error e => cases built
    | ok _ =>
      simp only at built reread
      split at built
      · cases built
      · rename_i proceeds
        split at built
        · cases built
        · cases built
          rw [reread] at proceeds
          exact ⟨rfl, Option.not_isSome_iff_eq_none.mp proceeds⟩

omit [Hashing] in
theorem Rollout.refused_some {event : RolloutEvent} {envelope : ForcedUpgrade}
    (refused : rollout.refused event = some envelope) :
    event.wakes = false ∧ rollout.device.engine.upgradeRequired = none ∧
      rollout.service.Tells rollout.app envelope := by
  cases event with
  | push faults compressedLen budgetBytes =>
    unfold Rollout.refused Rollout.asks at refused
    simp only at refused
    cases built : (rollout.device.buildPush faults compressedLen rollout.app budgetBytes).1 with
    | error e => simp [built] at refused
    | ok made =>
      cases made with
      | none => simp [built] at refused
      | some request =>
        obtain ⟨spoken, opened⟩ := Device.buildPush_asks built
        simp only [built, spoken] at refused
        cases decided : rollout.service.negotiate rollout.app with
        | accepted => simp [decided] at refused
        | refused sent =>
          simp only [decided, Option.some.injEq] at refused
          exact ⟨rfl, opened, refused ▸ VersionPolicy.negotiate_refused decided⟩
  | _ => cases refused

theorem Rollout.next_gate (rollout : Rollout) (event : RolloutEvent) :
    rollout.Gate (rollout.next event) (rollout.refused event) event.wakes := by
  cases event with
  | call faults call => exact .kept rfl (rollout.device.call_upgrade faults call)
  | push faults compressedLen budgetBytes =>
    have pushed := rollout.device.call_upgrade faults (.buildPush compressedLen rollout.app budgetBytes)
    cases decided : rollout.refused (.push faults compressedLen budgetBytes) with
    | none =>
      refine .kept rfl ?_
      rw [Rollout.next, decided]
      exact pushed
    | some envelope =>
      obtain ⟨_, opened, tells⟩ := Rollout.refused_some decided
      refine .closed envelope rfl opened ?_ tells
      rw [Rollout.next, decided]
      rfl
  | update app => exact .opened rfl
  | restart app registry migrations scopes =>
    exact .opened (Device.restart_opened registry migrations scopes _)
  | deploy service => exact .kept rfl rfl

/-- How many more refusals there can be before the app comes back. -/
def Rollout.left (rollout : Rollout) : Nat :=
  if rollout.device.engine.upgradeRequired.isSome then 0 else 1

/-- Between two refusals the app was updated, or started again. -/
theorem Rollout.refusals_le (rollout : Rollout) (events : List RolloutEvent) :
    (rollout.refusals events).length ≤ events.countP RolloutEvent.wakes + rollout.left := by
  induction events generalizing rollout with
  | nil => exact Nat.zero_le _
  | cons event rest ih =>
    have later := ih (rollout.next event)
    have gate := rollout.next_gate event
    rw [Rollout.refusals, List.length_append, List.countP_cons]
    unfold Rollout.left at later ⊢
    generalize rollout.refused event = decided at gate
    generalize event.wakes = wakes at gate
    cases gate with
    | kept app same =>
      rw [same] at later
      simpa using later
    | closed envelope app opened prompts tells =>
      rw [prompts] at later
      rw [opened]
      simp at later ⊢
      omega
    | opened opened =>
      rw [opened] at later
      simp at later ⊢
      omega

/-- Each refusal tells why. -/
theorem Rollout.refusals_tell (rollout : Rollout) (events : List RolloutEvent) :
    ∀ refusal ∈ rollout.refusals events, refusal.Tells := by
  induction events generalizing rollout with
  | nil => simp [Rollout.refusals]
  | cons event rest ih =>
    intro refusal member
    rcases List.mem_append.mp member with here | later
    · obtain ⟨envelope, refused, rfl⟩ := Option.map_eq_some_iff.mp (Option.mem_toList.mp here)
      exact (Rollout.refused_some refused).2.2
    · exact ih (rollout.next event) refusal later

/-- The prompt an app shows is the one it was last refused with, and it is still that app. -/
theorem Rollout.prompt_last (rollout : Rollout) (events : List RolloutEvent)
    {envelope : ForcedUpgrade}
    (prompts : (events.foldl Rollout.next rollout).device.engine.upgradeRequired = some envelope) :
    (∃ refusal, (rollout.refusals events).getLast? = some refusal ∧ refusal.envelope = envelope ∧
      refusal.app = (events.foldl Rollout.next rollout).app) ∨
    rollout.refusals events = [] ∧ rollout.device.engine.upgradeRequired = some envelope ∧
      rollout.app = (events.foldl Rollout.next rollout).app := by
  induction events generalizing rollout with
  | nil => exact .inr ⟨rfl, prompts, rfl⟩
  | cons event rest ih =>
    rw [List.foldl_cons] at prompts ⊢
    rw [Rollout.refusals]
    rcases ih (rollout.next event) prompts with ⟨refusal, last, same, app⟩ | ⟨none, same, app⟩
    · exact .inl ⟨refusal, by rw [List.getLast?_append, last, Option.some_or], same, app⟩
    · have gate := rollout.next_gate event
      rw [none, List.append_nil]
      generalize rollout.refused event = decided at gate ⊢
      generalize event.wakes = wakes at gate
      cases gate with
      | kept app' kept => exact .inr ⟨rfl, kept ▸ same, app' ▸ app⟩
      | closed sent app' opened prompts' tells =>
        rw [prompts', Option.some.injEq] at same
        exact .inl ⟨_, rfl, same, app' ▸ app⟩
      | opened opened =>
        rw [opened] at same
        cases same

theorem Device.run_react (device : Device) (events : List ClientEvent) :
    Transition.Run Device.Reacts device events (events.foldl Device.react device) := by
  induction events generalizing device with
  | nil => exact .done
  | cons event rest ih => exact .next rfl (ih (device.react event))

/-- An app at its first start, beside some service. -/
def Rollout.start (registry : Registry) (migrations : Migrations) (scopes : List ScopeId)
    (app : ProtocolVersion) (service : VersionPolicy) : Rollout :=
  ⟨Device.restart registry migrations scopes {}, app, service⟩

end Runs

namespace Sample

attribute [local instance] noteHashes

/-- An app two versions behind its service queues an edit, is refused, holds its next push, and is
updated before the last. -/
def behind : Rollout := .start (app schema) Migrations.new [scope] 3 (.window 5)

def behindEvents : List RolloutEvent :=
  let push : RolloutEvent := .push .none List.length 4096
  [.call .none (.enqueue edit), push, push, .update 5, push]

theorem behind_withholds :
    (behindEvents.foldl Rollout.next behind).device.db =
      ((behind.calls behindEvents).foldl Device.react behind.device).db :=
  (upgrades_only_withhold_pushes behind (Device.restart_opened ..) behindEvents).1

/-- The first push is refused, and the edit is still there for the last one. -/
example : (behind.refusals behindEvents).length = 1 ∧
    (behindEvents.foldl Rollout.next behind).device.engine.outbox.length = 1 ∧
    ((behindEvents.foldl Rollout.next behind).asks .none List.length 4096).isSome = true := by
  decide +kernel

end Sample

end CredSync
