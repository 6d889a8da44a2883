import CredSync.Core.Coherence
import CredSync.Sync.ScopeLog

/-! One client of an honest server over a network that delays, reorders, repeats
and drops responses. Every response ever computed stays in flight, and any of them
may be delivered at any time. -/

namespace CredSync

/-- Storage is honest, so a response is applied or refused. -/
def Device.deliver [Hashing] (device : Device) : Response → Except ApplyError Applied × Device
  | .pull _ batch => device.applyBatch .none batch
  | .bootstrap _ response => device.applyBootstrap .none response

structure Network where
  logs : ScopeId → ScopeLog := fun _ => .empty
  device : Device
  responses : List Response := []

namespace Network

inductive Event where
  | append (scope : ScopeId) (change : Change)
  | pull (scope : ScopeId) (request : PageRequest)
  | bootstrap (scope : ScopeId) (request : PageRequest) (protocol : ProtocolVersion)
  | deliver (index : Nat)
  | rebuild (scope : ScopeId)

/-- A client that never synced, and a server nobody has written to. -/
def start (registry : Registry) (migrations : Migrations) : Network where
  device := ⟨{ registry, migrations }, {}⟩

/-- The cursor stored for a scope. -/
def cursor (network : Network) (scope : ScopeId) : Cursor :=
  (network.device.db.position scope).cursor

/-- One more change in a scope's log. -/
def written (network : Network) (scope : ScopeId) (change : Change)
    (newer : ∀ earlier ∈ (network.logs scope).changes, earlier.seq.get < change.seq.get)
    (valid : change.validate = .ok ()) : Network :=
  { network with
    logs := Function.update network.logs scope ((network.logs scope).append change newer valid) }

@[simp] theorem written_same : (written network scope change newer valid).logs scope =
    (network.logs scope).append change newer valid :=
  Function.update_self ..

theorem written_other (different : other ≠ scope) :
    (written network scope change newer valid).logs other = network.logs other :=
  Function.update_of_ne different ..

section Steps

variable [Hashing]

/-- Requests go out at the cursor the client has in memory. -/
def next (network : Network) : Event → Option Network
  | .append scope change =>
    if ready : (∀ earlier ∈ (network.logs scope).changes, earlier.seq.get < change.seq.get) ∧
        change.validate = .ok () then
      some (network.written scope change ready.1 ready.2)
    else none
  | .pull scope request =>
    let cursor := (network.device.engine.scopeStateOr scope).cursor
    some { network with
      responses := network.responses ++ [.pull cursor ((network.logs scope).pull request scope cursor)] }
  | .bootstrap scope request protocol =>
    let cursor := (network.device.engine.scopeStateOr scope).cursor
    some { network with
      responses := network.responses ++
        [.bootstrap cursor ((network.logs scope).bootstrap request protocol scope cursor)] }
  | .deliver index => network.responses[index]?.map fun response =>
      { network with device := (network.device.deliver response).2 }
  | .rebuild scope =>
    some { network with device := (network.device.beginRebootstrap .none scope).2 }

/-- Every entity is written in one scope only, its home. -/
def Housed (home : EntityName → ScopeId) : Event → Prop
  | .append scope change => home change.entity = scope
  | _ => True

instance (home : EntityName → ScopeId) : DecidablePred (Housed home)
  | .append scope change => inferInstanceAs (Decidable (home change.entity = scope))
  | .pull .. | .bootstrap .. | .deliver _ | .rebuild _ => isTrue trivial

def Step (home : EntityName → ScopeId) (before : Network) (event : Event) (after : Network) : Prop :=
  Housed home event ∧ before.next event = some after

end Steps

end Network

section Deliver

variable [Hashing]

theorem Device.deliver_eq (device : Device) (response : Response) :
    device.deliver response = device.applyChanges .none response.batch (!response.batch.hasMore)
      response.rebuilding := by
  cases response <;> rfl

/-- An engine with nothing suspect refuses a response, or commits its plan. -/
theorem Device.deliver_cases (device : Device) (trusted : device.engine.suspect = ∅)
    (response : Response) :
    (∃ e, device.deliver response = (.error e, device)) ∨
      ∃ plan, device.Plans response.batch (!response.batch.hasMore) response.rebuilding plan ∧
        device.deliver response = (.ok ⟨response.batch.changes.length, plan.diverged⟩,
          ⟨Device.advance device.engine response.batch plan, device.db.staged plan.ops⟩) := by
  have free : response.batch.scope ∉ device.engine.suspect := by
    rw [trusted]
    exact Finset.notMem_empty _
  rw [device.deliver_eq, device.applyChanges_honest free]
  cases planned : device.plan .none response.batch (!response.batch.hasMore) response.rebuilding with
  | error e => exact .inl ⟨e, rfl⟩
  | ok plan => exact .inr ⟨plan, device.plan_plans planned, rfl⟩

end Deliver

namespace Network

variable [Hashing] {home : EntityName → ScopeId} {before after : Network} {event : Event}

/-- What holds however the network behaves. -/
structure Sound (home : EntityName → ScopeId) (network : Network) : Prop where
  trusted : network.device.engine.suspect = ∅
  mirrors : network.device.Mirrors
  housed : ∀ scope, ∀ change ∈ (network.logs scope).changes, home change.entity = scope
  marked : ∀ scope, (network.logs scope).Marks (network.cursor scope).get
  drawn : ∀ response ∈ network.responses, response.Drawn (network.logs response.batch.scope)

/-- Requests are made at the stored cursor. -/
theorem Sound.requested (sound : before.Sound home) (scope : ScopeId) :
    (before.device.engine.scopeStateOr scope).cursor = before.cursor scope := by
  have known : scope ∉ before.device.engine.suspect := by
    rw [sound.trusted]
    exact Finset.notMem_empty _
  rw [sound.mirrors scope known, cursor]

variable {plan : Plan} {response : Response}

/-- A device with its plan for a response committed. -/
def committed (device : Device) (response : Response) (plan : Plan) : Device :=
  ⟨Device.advance device.engine response.batch plan, device.db.staged plan.ops⟩

theorem committed_cursor
    (plans : before.device.Plans response.batch (!response.batch.hasMore) response.rebuilding plan)
    (scope : ScopeId) :
    cursor { before with device := committed before.device response plan } scope =
      if scope = response.batch.scope then response.batch.nextCursor else before.cursor scope := by
  rw [cursor, committed, plans.position]
  split <;> rfl

private theorem Sound.commit (sound : before.Sound home) (member : response ∈ before.responses)
    (plans : before.device.Plans response.batch (!response.batch.hasMore) response.rebuilding plan) :
    Sound home { before with device := committed before.device response plan } where
  trusted := by
    obtain ⟨emitted, moved⟩ := Device.advance_eq before.device.engine response.batch plan
    rw [committed, moved]
    exact sound.trusted
  mirrors := by
    have free : response.batch.scope ∉ before.device.engine.suspect := by
      rw [sound.trusted]
      exact Finset.notMem_empty _
    exact sound.mirrors.applies (.committed plan free plans)
  housed := sound.housed
  marked := by
    intro scope
    rw [committed_cursor plans]
    split
    · rename_i same
      rw [same]
      exact (sound.drawn response member).reached
    · exact sound.marked scope
  drawn := sound.drawn

omit [Hashing] in
private theorem Sound.rebuild [Hashing] (sound : before.Sound home) (scope : ScopeId) :
    Sound home { before with device := (before.device.beginRebootstrap .none scope).2 } where
  trusted := sound.trusted
  mirrors := sound.mirrors.beginRebootstrap .none scope
  housed := sound.housed
  marked := by
    intro other
    change (before.logs other).Marks (((before.device.db.staged
      (before.device.engine.registry.rebootstrapOps scope)).position other).cursor).get
    rw [Db.cleared_position]
    split
    · exact .inl rfl
    · exact sound.marked other
  drawn := sound.drawn

private theorem Sound.request (sound : before.Sound home)
    (drawn : response.Drawn (before.logs response.batch.scope)) :
    Sound home { before with responses := before.responses ++ [response] } where
  trusted := sound.trusted
  mirrors := sound.mirrors
  housed := sound.housed
  marked := sound.marked
  drawn := by
    intro other member
    rcases List.mem_append.mp member with member | member
    · exact sound.drawn other member
    · rw [List.mem_singleton.mp member]
      exact drawn

private theorem Sound.append (sound : before.Sound home) {scope : ScopeId} {change : Change}
    (housed : home change.entity = scope)
    (newer : ∀ earlier ∈ (before.logs scope).changes, earlier.seq.get < change.seq.get)
    (valid : change.validate = .ok ()) :
    Sound home (before.written scope change newer valid) where
  trusted := sound.trusted
  mirrors := sound.mirrors
  housed := by
    intro other later member
    by_cases same : other = scope
    · subst same
      rw [written_same] at member
      rcases ScopeLog.mem_append.mp member with member | rfl
      · exact sound.housed other later member
      · exact housed
    · rw [written_other same] at member
      exact sound.housed other later member
  marked := by
    intro other
    by_cases same : other = scope
    · subst same
      rw [written_same]
      exact (sound.marked other).append
    · rw [written_other same]
      exact sound.marked other
  drawn := by
    intro response member
    by_cases same : response.batch.scope = scope
    · subst same
      rw [written_same]
      exact (sound.drawn response member).append
    · rw [written_other same]
      exact sound.drawn response member

/-- What one event does, device by device: nothing, a rebuild, or a response applied. -/
inductive Moves (before : Network) : Event → Network → Prop where
  | append (scope : ScopeId) (change : Change)
      (newer : ∀ earlier ∈ (before.logs scope).changes, earlier.seq.get < change.seq.get)
      (valid : change.validate = .ok ()) :
      Moves before (.append scope change) (before.written scope change newer valid)
  | request (event : Event) (response : Response)
      (asked : (∃ scope request, event = .pull scope request ∧ response.rebuilding = false) ∨
        ∃ scope request protocol, event = .bootstrap scope request protocol)
      (place : response.requested = before.cursor response.batch.scope)
      (drawn : response.Drawn (before.logs response.batch.scope)) :
      Moves before event { before with responses := before.responses ++ [response] }
  | refused (index : Nat) (response : Response) (found : before.responses[index]? = some response)
      (refused : ∃ e, before.device.deliver response = (.error e, before.device)) :
      Moves before (.deliver index) before
  | applied (index : Nat) (response : Response) (found : before.responses[index]? = some response)
      (plan : Plan)
      (plans : before.device.Plans response.batch (!response.batch.hasMore) response.rebuilding plan) :
      Moves before (.deliver index)
        { before with device := committed before.device response plan }
  | rebuild (scope : ScopeId) :
      Moves before (.rebuild scope)
        { before with device := (before.device.beginRebootstrap .none scope).2 }

theorem Step.moves (step : Step home before event after) (sound : before.Sound home) :
    before.Moves event after := by
  obtain ⟨_, goes⟩ := step
  cases event with
  | append scope change =>
    simp only [next] at goes
    split at goes
    · rename_i ready
      cases goes
      exact .append scope change ready.1 ready.2
    · cases goes
  | pull scope request =>
    cases goes
    refine .request _ _ (.inl ⟨scope, request, rfl, rfl⟩) (sound.requested scope) ?_
    rw [sound.requested]
    exact (before.logs scope).pull_drawn request scope (sound.marked scope)
  | bootstrap scope request protocol =>
    cases goes
    refine .request _ _ (.inr ⟨scope, request, protocol, rfl⟩) (sound.requested scope) ?_
    rw [sound.requested]
    exact (before.logs scope).bootstrap_drawn request protocol scope (sound.marked scope)
  | deliver index =>
    obtain ⟨response, found, rfl⟩ := Option.map_eq_some_iff.mp goes
    obtain ⟨e, refused⟩ | ⟨plan, plans, applied⟩ := before.device.deliver_cases sound.trusted response
    · rw [refused]
      exact .refused index response found ⟨e, refused⟩
    · rw [applied]
      exact .applied index response found plan plans
  | rebuild scope =>
    cases goes
    exact .rebuild scope

theorem Step.sound (step : Step home before event after) (sound : before.Sound home) :
    after.Sound home := by
  have housed := step.1
  cases step.moves sound with
  | append scope change newer valid => exact sound.append housed newer valid
  | request event response asked place drawn => exact sound.request drawn
  | refused index response found refused => exact sound
  | applied index response found plan plans =>
    exact sound.commit (List.mem_of_getElem? found) plans
  | rebuild scope => exact sound.rebuild scope

theorem start_sound (home : EntityName → ScopeId) (registry : Registry) (migrations : Migrations) :
    (start registry migrations).Sound home where
  trusted := rfl
  mirrors := fun _ _ => rfl
  housed := fun _ _ member => nomatch member
  marked := fun _ => .inl rfl
  drawn := fun _ member => nomatch member

end Network

end CredSync
