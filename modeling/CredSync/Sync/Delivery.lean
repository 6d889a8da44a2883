import CredSync.Sync.Network

/-! Pulled batches delivered late, twice or out of order. Only an empty batch can
take a cursor back; while each of those is delivered where it was requested, a
client has what its cursor says and nothing late or repeated changes it. -/

namespace CredSync

namespace Network

/-- A run of pulls alone. -/
def Event.IsPull : Event → Prop
  | .bootstrap .. | .rebuild _ => False
  | _ => True

instance : DecidablePred Event.IsPull
  | .bootstrap .. | .rebuild _ => isFalse id
  | .append .. | .pull .. | .deliver _ => isTrue trivial

/-- An empty batch is delivered only while the cursor is the one it carries. -/
def KeepsPlace (network : Network) : Event → Prop
  | .deliver index => ∀ response ∈ network.responses[index]?, response.batch.changes = [] →
      response.batch.nextCursor = network.cursor response.batch.scope
  | _ => True

instance (network : Network) : DecidablePred network.KeepsPlace
  | .deliver index => inferInstanceAs (Decidable (∀ response ∈ network.responses[index]?,
      response.batch.changes = [] →
        response.batch.nextCursor = network.cursor response.batch.scope))
  | .append .. | .pull .. | .bootstrap .. | .rebuild _ => isTrue trivial

/-- The changes of a scope that a client at its cursor has applied. -/
def applied (network : Network) (scope : ScopeId) : List Change :=
  ((network.logs scope).upTo (network.cursor scope).get).filter network.device.engine.lands

/-- No cursor goes back. -/
def Forward (before after : Network) : Prop :=
  ∀ scope, (before.cursor scope).get ≤ (after.cursor scope).get

theorem Forward.refl (network : Network) : network.Forward network := fun _ => le_rfl

theorem Forward.trans (first second third : Network) (earlier : first.Forward second)
    (later : second.Forward third) : first.Forward third :=
  fun scope => (earlier scope).trans (later scope)

/-- The steps of a run of pulls whose empty batches are delivered in place. -/
def PullStep [Hashing] (home : EntityName → ScopeId) : Network → Event → Network → Prop :=
  Transition.Guarded (Step home) fun network event => event.IsPull ∧ network.KeepsPlace event

section Pulls

variable [Hashing] {home : EntityName → ScopeId} {before after : Network} {event : Event}
  {response : Response} {plan : Plan}

/-- What a run of pulls keeps: every request was made at or before the cursor, and
each row is as the applied changes leave it. -/
structure Pulls (home : EntityName → ScopeId) (network : Network) : Prop extends
    Sound home network where
  pulled : ∀ response ∈ network.responses, response.rebuilding = false
  asked : ∀ response ∈ network.responses,
    response.requested.get ≤ (network.cursor response.batch.scope).get
  rows : ∀ key, network.device.db.version key =
    KeyedLog.live ((network.applied (home key.1)).map Change.entry) key

/-- A nonempty batch requested before the cursor carries a change at or below it. -/
theorem Pulls.late (pulls : before.Pulls home) (member : response ∈ before.responses)
    (late : response.requested ≠ before.cursor response.batch.scope)
    (carries : response.batch.changes ≠ []) :
    ¬ response.batch.Ordered (before.cursor response.batch.scope).get := by
  intro ordered
  have drawn := pulls.drawn response member
  have behind : response.requested.get < (before.cursor response.batch.scope).get :=
    lt_of_le_of_ne (pulls.asked response member) fun same => late (BoundedNum.ext same)
  obtain ⟨first, inside⟩ := List.exists_mem_of_ne_nil _ carries
  by_cases reach : (before.cursor response.batch.scope).get ≤ response.batch.nextCursor.get
  · rcases pulls.marked response.batch.scope with start | ⟨change, known, same⟩
    · omega
    · have carried := drawn.contiguous (pulls.pulled response member) change known
        (same ▸ behind) (same ▸ reach)
      exact absurd (ordered.above change carried) (by omega)
  · have below := drawn.below inside
    exact absurd (ordered.above first inside) (by omega)

/-- A batch that is applied was requested at the cursor, and continues it. -/
theorem Pulls.continues (pulls : before.Pulls home) (member : response ∈ before.responses)
    (inPlace : response.batch.changes = [] →
      response.batch.nextCursor = before.cursor response.batch.scope)
    (ordered : response.batch.Ordered (before.cursor response.batch.scope).get) :
    response.requested = before.cursor response.batch.scope ∧
      (before.logs response.batch.scope).upTo response.batch.nextCursor.get =
        (before.logs response.batch.scope).upTo (before.cursor response.batch.scope).get ++
          response.batch.changes := by
  have drawn := pulls.drawn response member
  have prompt : response.requested = before.cursor response.batch.scope := by
    by_contra late
    by_cases empty : response.batch.changes = []
    · exact late ((drawn.stays empty).symm.trans (inPlace empty))
    · exact pulls.late member late empty ordered
  refine ⟨prompt, ?_⟩
  have log := (before.logs response.batch.scope).ascending
  have carried : response.batch.changes = KeyedLog.between (fun change : Change => change.seq.get)
      response.requested.get response.batch.nextCursor.get
        (before.logs response.batch.scope).changes := by
    refine drawn.ascending.ext (log.filter _) fun change => ?_
    rw [KeyedLog.mem_between]
    constructor
    · intro inside
      exact ⟨(drawn.drawn change inside).1, (drawn.drawn change inside).2, drawn.below inside⟩
    · rintro ⟨known, above, below⟩
      exact drawn.contiguous (pulls.pulled response member) change known above below
  rw [← prompt, carried]
  exact (log.upTo_append_between drawn.forward).symm

theorem Pulls.ordered (pulls : before.Pulls home)
    (plans : before.device.Plans response.batch compareDigest rebuilding plan) :
    response.batch.Ordered (before.cursor response.batch.scope).get := by
  rw [← pulls.requested]
  exact plans.ordered

theorem committed_lands (device : Device) (response : Response) (plan : Plan) :
    (committed device response plan).engine.lands = device.engine.lands := by
  obtain ⟨emitted, moved⟩ := Device.advance_eq device.engine response.batch plan
  rw [committed, moved]
  rfl

/-- The applied changes of a scope grow by those of its batch that land. -/
theorem Pulls.applied_commit (pulls : before.Pulls home) (member : response ∈ before.responses)
    (inPlace : response.batch.changes = [] →
      response.batch.nextCursor = before.cursor response.batch.scope)
    (plans : before.device.Plans response.batch (!response.batch.hasMore) response.rebuilding plan)
    (scope : ScopeId) :
    applied { before with device := committed before.device response plan } scope =
      if scope = response.batch.scope then
        before.applied scope ++ response.batch.changes.filter before.device.engine.lands
      else before.applied scope := by
  have continued := (pulls.continues member inPlace (pulls.ordered plans)).2
  rw [applied, committed_cursor plans]
  change List.filter (committed before.device response plan).engine.lands _ = _
  rw [committed_lands]
  split
  · rename_i same
    subst same
    change List.filter _ ((before.logs response.batch.scope).upTo _) = _
    rw [continued, List.filter_append]
    rfl
  · rfl

theorem Pulls.rows_commit (pulls : before.Pulls home) (member : response ∈ before.responses)
    (inPlace : response.batch.changes = [] →
      response.batch.nextCursor = before.cursor response.batch.scope)
    (plans : before.device.Plans response.batch (!response.batch.hasMore) response.rebuilding plan)
    (key : RowKey) :
    (committed before.device response plan).db.version key =
      KeyedLog.live ((applied { before with device := committed before.device response plan }
        (home key.1)).map Change.entry) key := by
  have drawn := pulls.drawn response member
  rw [committed, plans.version, ← committed, pulls.applied_commit member inPlace plans]
  by_cases here : home key.1 = response.batch.scope
  · rw [if_pos here, List.map_append, KeyedLog.live, KeyedLog.replay_append]
    exact KeyedLog.replay_at (pulls.rows key)
  · have absent : ∀ entry ∈ (response.batch.changes.filter before.device.engine.lands).map
        Change.entry, entry.key ≠ key := by
      rintro _ inside rfl
      obtain ⟨change, carried, rfl⟩ := List.mem_map.mp inside
      have known := (drawn.drawn change (List.mem_filter.mp carried).1).1
      exact here (pulls.housed _ change known)
    rw [if_neg here, KeyedLog.replay_absent absent]
    exact pulls.rows key

omit [Hashing] in
theorem applied_written {scope other : ScopeId} {change : Change}
    {newer : ∀ earlier ∈ (before.logs scope).changes, earlier.seq.get < change.seq.get}
    {valid : change.validate = .ok ()}
    (marked : (before.logs other).Marks (before.cursor other).get) :
    (before.written scope change newer valid).applied other = before.applied other := by
  by_cases same : other = scope
  · subst same
    change List.filter _ (((before.written other change newer valid).logs other).upTo _) = _
    rw [written_same]
    exact congrArg (List.filter _) (ScopeLog.upTo_append marked)
  · change List.filter _ (((before.written scope change newer valid).logs other).upTo _) = _
    rw [written_other same]
    rfl

/-- A cursor moves with the batch that is applied, and never back. -/
theorem Pulls.forward (pulls : before.Pulls home) (member : response ∈ before.responses)
    (inPlace : response.batch.changes = [] →
      response.batch.nextCursor = before.cursor response.batch.scope)
    (plans : before.device.Plans response.batch (!response.batch.hasMore) response.rebuilding plan)
    (scope : ScopeId) : (before.cursor scope).get ≤
      (cursor { before with device := committed before.device response plan } scope).get := by
  rw [committed_cursor plans]
  split
  · rename_i same
    subst same
    rw [← (pulls.continues member inPlace (pulls.ordered plans)).1]
    exact (pulls.drawn response member).forward
  · exact le_rfl

theorem PullStep.pulls (step : PullStep home before event after) (pulls : before.Pulls home) :
    after.Pulls home ∧ before.Forward after := by
  obtain ⟨⟨isPull, inPlace⟩, step⟩ := step
  have sound := step.sound pulls.toSound
  cases step.moves pulls.toSound with
  | append scope change newer valid =>
    refine ⟨⟨sound, pulls.pulled, pulls.asked, fun key => ?_⟩, fun _ => le_rfl⟩
    rw [applied_written (pulls.marked _)]
    exact pulls.rows key
  | request event response asked place drawn =>
    refine ⟨⟨sound, ?_, ?_, pulls.rows⟩, fun _ => le_rfl⟩
    · intro other member
      rcases List.mem_append.mp member with member | member
      · exact pulls.pulled other member
      · rw [List.mem_singleton.mp member]
        rcases asked with ⟨scope, request, rfl, pulled⟩ | ⟨scope, request, protocol, rfl⟩
        · exact pulled
        · exact isPull.elim
    · intro other member
      rcases List.mem_append.mp member with member | member
      · exact pulls.asked other member
      · rw [List.mem_singleton.mp member, place]
        exact le_rfl
  | refused index response found refused => exact ⟨pulls, fun _ => le_rfl⟩
  | applied index response found plan plans =>
    have member := List.mem_of_getElem? found
    have place := inPlace response found
    have forward := pulls.forward member place plans
    exact ⟨⟨sound, pulls.pulled, fun other inside => (pulls.asked other inside).trans (forward _),
      pulls.rows_commit member place plans⟩, forward⟩
  | rebuild scope => exact isPull.elim

/-- A late response leaves everything as it is. -/
theorem Pulls.late_refused (pulls : before.Pulls home) {index : Nat}
    (found : before.responses[index]? = some response)
    (late : response.requested ≠ before.cursor response.batch.scope)
    (step : PullStep home before (.deliver index) after) : after = before := by
  obtain ⟨⟨_, inPlace⟩, step⟩ := step
  cases step.moves pulls.toSound with
  | refused => rfl
  | applied _ other found' plan plans =>
    cases found.symm.trans found'
    exact absurd (pulls.continues (List.mem_of_getElem? found) (inPlace response found)
      (pulls.ordered plans)).1 late
  | request _ _ asked =>
    rcases asked with ⟨_, _, impossible, _⟩ | ⟨_, _, _, impossible⟩ <;> cases impossible

end Pulls

end Network

end CredSync
