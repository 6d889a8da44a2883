import CredSync.Sync.Delivery

/-! Rebuilds while old responses are still in flight. A wiped scope starts over at
cursor zero, where nothing tells a batch of before the wipe from one of after it;
while batches are applied at or past the cursor they were requested at, nothing
is missing below the cursor. -/

namespace CredSync

namespace Network

/-- A response is applied no earlier than where it was requested, and one requested
at the start only at the start: a bootstrap from there carries no deletes. -/
def Fits (network : Network) (response : Response) : Prop :=
  response.requested.get ≤ (network.cursor response.batch.scope).get ∧
    (response.requested.get = 0 → (network.cursor response.batch.scope).get = 0)

instance (network : Network) : DecidablePred network.Fits := fun response =>
  inferInstanceAs (Decidable (response.requested.get ≤ (network.cursor response.batch.scope).get ∧
    (response.requested.get = 0 → (network.cursor response.batch.scope).get = 0)))

/-- A rebuild wipes the stored rows of its scope, and those alone. -/
def WipesScope (home : EntityName → ScopeId) (network : Network) (scope : ScopeId) : Prop :=
  ∀ key ∈ network.device.db.rows.keys,
    network.device.engine.registry.scopeOf key.1 = some scope ↔ home key.1 = scope

instance (home : EntityName → ScopeId) (network : Network) :
    DecidablePred (network.WipesScope home) := fun scope =>
  inferInstanceAs (Decidable (∀ key ∈ network.device.db.rows.keys,
    network.device.engine.registry.scopeOf key.1 = some scope ↔ home key.1 = scope))

/-- Every response that is not refused fits, and every rebuild wipes its scope. -/
def Continues (home : EntityName → ScopeId) (network : Network) : Event → Prop
  | .deliver index => ∀ response ∈ network.responses[index]?,
      (validateOrdering response.batch (network.cursor response.batch.scope).get).isOk = true →
        network.Fits response
  | .rebuild scope => network.WipesScope home scope
  | _ => True

instance (home : EntityName → ScopeId) (network : Network) :
    DecidablePred (network.Continues home)
  | .deliver index => inferInstanceAs (Decidable (∀ response ∈ network.responses[index]?,
      (validateOrdering response.batch (network.cursor response.batch.scope).get).isOk = true →
        network.Fits response))
  | .rebuild scope => inferInstanceAs (Decidable (network.WipesScope home scope))
  | .append .. | .pull .. | .bootstrap .. => isTrue trivial

/-- The rows of a scope whose latest change the client can store. -/
def storable (network : Network) (home : EntityName → ScopeId) (scope : ScopeId) : Set RowKey :=
  {key | home key.1 = scope ∧ ∀ change ∈ (network.logs scope).changes, change.key = key →
    isLatest (network.logs scope).changes change = true → network.device.engine.lands change = true}

/-- The steps of a run whose deliveries and rebuilds continue what the client holds. -/
def RebuildStep [Hashing] (home : EntityName → ScopeId) : Network → Event → Network → Prop :=
  Transition.Guarded (Step home) fun network event => network.Continues home event

section Whole

variable [Hashing] {home : EntityName → ScopeId} {before after : Network} {event : Event}
  {response : Response} {plan : Plan}

/-- No hole behind any cursor, and nothing held where a cursor is at the start. -/
structure Whole (home : EntityName → ScopeId) (network : Network) : Prop extends
    Sound home network where
  settled : ∀ scope, KeyedLog.Settled (network.storable home scope) network.device.db.version
    ((network.logs scope).changes.map Change.entry) (network.cursor scope).get
  blank : ∀ scope, (network.cursor scope).get = 0 → ∀ key : RowKey, home key.1 = scope →
    network.device.db.version key = none

/-- A committed batch writes only rows of its scope. -/
theorem Sound.version_elsewhere (sound : before.Sound home) (member : response ∈ before.responses)
    (plans : before.device.Plans response.batch compareDigest rebuilding plan)
    {key : RowKey} (elsewhere : home key.1 ≠ response.batch.scope) :
    (committed before.device response plan).db.version key = before.device.db.version key := by
  rw [committed, plans.version]
  refine KeyedLog.replay_absent ?_
  rintro _ inside rfl
  obtain ⟨change, carried, rfl⟩ := List.mem_map.mp inside
  have known := ((sound.drawn response member).drawn change (List.mem_filter.mp carried).1).1
  exact elsewhere (sound.housed _ change known)

/-- A batch that fits takes the client from its cursor to the next one. -/
theorem Whole.advances (whole : before.Whole home) (member : response ∈ before.responses)
    (fits : before.Fits response)
    (ordered : response.batch.Ordered (before.cursor response.batch.scope).get) :
    KeyedLog.Advances (before.storable home response.batch.scope) before.device.db.version
      ((before.logs response.batch.scope).changes.map Change.entry)
      ((response.batch.changes.filter before.device.engine.lands).map Change.entry)
      (before.cursor response.batch.scope).get response.batch.nextCursor.get := by
  have drawn := whole.drawn response member
  refine ⟨?_, ?_, ?_⟩
  · intro entry inside
    obtain ⟨change, carried, rfl⟩ := List.mem_map.mp inside
    have carried := (List.mem_filter.mp carried).1
    exact ⟨List.mem_map_of_mem (drawn.drawn change carried).1, ordered.above change carried⟩
  · exact List.pairwise_map.mpr (drawn.ascending.filter _)
  · intro entry latest storable above below
    obtain ⟨change, known, rfl, highest⟩ := latest_entry Change.entry_same latest
    have lands := storable.2 change known rfl highest
    rcases drawn.complete change known highest (fits.1.trans_lt above) below with
      carried | ⟨deleted, start, absent⟩
    · exact .inl (List.mem_map_of_mem (List.mem_filter.mpr ⟨carried, lands⟩))
    · refine .inr ⟨?_, whole.blank _ (fits.2 start) change.key storable.1, ?_⟩
      · simp [Change.entry, Change.held, deleted]
      · intro other inside
        obtain ⟨another, carried, rfl⟩ := List.mem_map.mp inside
        exact absent another (List.mem_filter.mp carried).1

private theorem Whole.commit (whole : before.Whole home) (member : response ∈ before.responses)
    (fits : before.Fits response)
    (ordered : response.batch.Ordered (before.cursor response.batch.scope).get)
    (plans : before.device.Plans response.batch (!response.batch.hasMore) response.rebuilding plan)
    (sound : Sound home { before with device := committed before.device response plan }) :
    Whole home { before with device := committed before.device response plan } := by
  have storable : ∀ scope, storable { before with device := committed before.device response plan }
      home scope = before.storable home scope := by
    intro scope
    unfold Network.storable
    rw [committed_lands]
  refine ⟨sound, fun scope => ?_, fun scope start key housed => ?_⟩
  · rw [storable, committed_cursor plans]
    by_cases same : scope = response.batch.scope
    · subst same
      rw [if_pos rfl, committed, plans.version]
      exact (whole.settled _).advance (entries_ascending Change.entry_same (ScopeLog.ascending _)) (whole.advances member fits ordered)
    · rw [if_neg same]
      intro key inside below
      rw [whole.version_elsewhere member plans (inside.1.trans_ne same)]
      exact whole.settled scope key inside below
  · rw [committed_cursor plans] at start
    by_cases same : scope = response.batch.scope
    · subst same
      rw [if_pos rfl] at start
      -- a batch that ends at the start was requested there, and carries nothing
      have drawn := whole.drawn response member
      have empty : response.batch.changes = [] := by
        refine List.eq_nil_iff_forall_not_mem.mpr fun change inside => ?_
        have below := drawn.below inside
        rw [start] at below
        exact Nat.not_lt.mpr below change.seq.lower
      have asked : response.requested.get = 0 := by
        rw [← drawn.stays empty]
        exact start
      rw [committed, plans.version, empty]
      exact whole.blank _ (fits.2 asked) key housed
    · rw [if_neg same] at start
      rw [whole.version_elsewhere member plans (housed.trans_ne same)]
      exact whole.blank scope start key housed

private theorem Whole.append (whole : before.Whole home) {scope : ScopeId} {change : Change}
    (newer : ∀ earlier ∈ (before.logs scope).changes, earlier.seq.get < change.seq.get)
    (valid : change.validate = .ok ()) (sound : (before.written scope change newer valid).Sound home) :
    (before.written scope change newer valid).Whole home := by
  refine ⟨sound, fun other => ?_, whole.blank⟩
  by_cases same : other = scope
  · subst same
    rw [written_same, ScopeLog.append, List.map_append]
    refine (whole.settled other).grow_within ?_ ?_
    · intro entry last
      rw [List.map_singleton, List.mem_singleton] at last
      rw [last]
      exact (whole.marked other).below newer
    · intro key inside absent
      refine ⟨inside.1, fun earlier known here highest => ?_⟩
      refine inside.2 earlier ?_ here ?_
      · rw [written_same]
        exact ScopeLog.mem_append.mpr (.inl known)
      · rw [written_same, isLatest_iff]
        intro another member equal
        rcases ScopeLog.mem_append.mp member with member | rfl
        · exact isLatest_iff.mp highest another member equal
        · exact absurd (equal.trans here) (absent another.entry (by simp))
  · have storable : (before.written scope change newer valid).storable home other =
        before.storable home other := by
      unfold Network.storable
      rw [written_other same]
      rfl
    rw [storable, written_other same]
    exact whole.settled other

omit [Hashing] in
private theorem cleared_version (device : Device) (scope : ScopeId) (key : RowKey) :
    (device.beginRebootstrap .none scope).2.db.version key =
      if device.engine.registry.scopeOf key.1 = some scope then none else device.db.version key := by
  change ((device.db.staged (device.engine.registry.rebootstrapOps scope)).holding key).map _ = _
  rw [Db.cleared_holding]
  split <;> rfl

omit [Hashing] in
private theorem cleared_cursor (network : Network) (scope other : ScopeId) :
    cursor { network with device := (network.device.beginRebootstrap .none scope).2 } other =
      if other = scope then Cursor.start else network.cursor other := by
  change ((network.device.db.staged
    (network.device.engine.registry.rebootstrapOps scope)).position other).cursor = _
  rw [Db.cleared_position]
  split <;> rfl

omit [Hashing] in
/-- A rebuild that wipes its scope leaves none of its rows, and every other row. -/
private theorem WipesScope.version [Hashing] {scope : ScopeId}
    (wipes : before.WipesScope home scope) (key : RowKey) :
    (before.device.beginRebootstrap .none scope).2.db.version key =
      if home key.1 = scope then none else before.device.db.version key := by
  rw [cleared_version]
  cases held : before.device.db.rows.lookup key with
  | none => simp [Db.version, held]
  | some row =>
    have stored : key ∈ before.device.db.rows.keys :=
      Finmap.mem_keys.mpr (Finmap.mem_of_lookup_eq_some held)
    simp only [wipes key stored]

private theorem Whole.rebuild (whole : before.Whole home) {scope : ScopeId}
    (wipes : before.WipesScope home scope)
    (sound : Sound home { before with device := (before.device.beginRebootstrap .none scope).2 }) :
    Whole home { before with device := (before.device.beginRebootstrap .none scope).2 } := by
  refine ⟨sound, fun other => ?_, fun other start key housed => ?_⟩
  · rw [cleared_cursor]
    by_cases same : other = scope
    · subst same
      rw [if_pos rfl]
      refine .empty (fun key inside => ?_) fun entry member => ?_
      · rw [wipes.version, if_pos inside.1]
      · obtain ⟨change, _, rfl⟩ := List.mem_map.mp member
        exact change.seq.lower
    · rw [if_neg same]
      intro key inside below
      rw [wipes.version, if_neg (inside.1.trans_ne same)]
      exact whole.settled other key inside below
  · rw [wipes.version]
    rw [cleared_cursor] at start
    split
    · rfl
    · rename_i elsewhere
      rw [if_neg (by rwa [housed] at elsewhere)] at start
      exact whole.blank other start key housed

theorem RebuildStep.whole (step : RebuildStep home before event after) (whole : before.Whole home) :
    after.Whole home := by
  obtain ⟨continues, step⟩ := step
  have sound := step.sound whole.toSound
  cases step.moves whole.toSound with
  | append scope change newer valid => exact whole.append newer valid sound
  | request event response asked place drawn => exact ⟨sound, whole.settled, whole.blank⟩
  | refused index response found refused => exact whole
  | applied index response found plan plans =>
    have ordered := plans.ordered
    rw [whole.requested] at ordered
    have fits : before.Fits response := by
      refine continues response found ?_
      rw [(validateOrdering_ok_iff _ _).mpr ordered]
      rfl
    exact whole.commit (List.mem_of_getElem? found) fits ordered plans sound
  | rebuild scope => exact whole.rebuild continues sound

theorem start_whole (home : EntityName → ScopeId) (registry : Registry) (migrations : Migrations) :
    (start registry migrations).Whole home where
  toSound := start_sound home registry migrations
  settled := fun _ => .empty (fun _ _ => rfl) fun _ member => nomatch member
  blank := fun _ _ _ _ => rfl

/-- Rebuilds leave no hole behind the cursor while every response is applied at or
past where it was requested: a row whose latest change the cursor has passed is
held at exactly that version, or not held if it was deleted. -/
theorem rebuild_leaves_no_hole (home : EntityName → ScopeId) (registry : Registry)
    (migrations : Migrations) (labels : List Event) (network : Network)
    (run : Transition.Run (RebuildStep home) (start registry migrations) labels network) :
    ∀ scope, ∀ change ∈ (network.logs scope).changes,
      isLatest (network.logs scope).changes change = true →
      change.seq.get ≤ (network.cursor scope).get →
      network.device.engine.lands change = true →
      network.device.db.version change.key = change.held := by
  intro scope change member latest passed lands
  have whole := run.invariant (fun _ _ _ whole step => step.whole whole)
    (start_whole home registry migrations)
  have highest := isLatest_iff.mp latest
  have last : KeyedLog.Latest ((network.logs scope).changes.map Change.entry) change.entry := by
    refine ⟨List.mem_map_of_mem member, fun entry inside same => ?_⟩
    obtain ⟨other, known, rfl⟩ := List.mem_map.mp inside
    exact highest other known same
  have storable : change.key ∈ network.storable home scope := by
    refine ⟨whole.housed scope change member, fun other known same latest' => ?_⟩
    rw [(network.logs scope).latest_unique known member latest' latest same]
    exact lands
  calc network.device.db.version change.key
      = KeyedLog.live ((network.logs scope).changes.map Change.entry) change.key :=
        whole.settled scope change.key storable fun entry inside same =>
          (last.2 entry inside same).trans passed
    _ = change.held := KeyedLog.live_latest (entries_ascending Change.entry_same (ScopeLog.ascending _)) last

end Whole

end Network

namespace Sample

open Network

attribute [local instance] noteHashes

/-- The responses of before the rebuild arrive after the bootstrap of after it. -/
def rebuiltInTime : List Network.Event :=
  [.append scope noteA, .pull scope onePage, .deliver 0, .append scope noteB, .pull scope onePage,
    .rebuild scope, .bootstrap scope onePage 1, .deliver 2, .deliver 1,
    .deliver 0]

theorem rebuiltInTime_whole : ∃ network,
    Transition.Run (RebuildStep fun _ => scope) (start notes Migrations.new) rebuiltInTime network ∧
    ∃ change ∈ (network.logs scope).changes, change.key = (note, first) ∧
      network.device.db.version change.key = change.held := by
  have followed : (Transition.follow
      (fun network event => decide (network.Continues (fun _ => scope) event ∧
        Housed (fun _ => scope) event))
      next (start notes Migrations.new) rebuiltInTime).any (fun network =>
        decide (∃ change ∈ (network.logs scope).changes, change.key = (note, first) ∧
          isLatest (network.logs scope).changes change = true ∧
          change.seq.get ≤ (network.cursor scope).get ∧
          network.device.engine.lands change = true)) = true := by
    decide +kernel
  have taken : ∀ before label after,
      decide (before.Continues (fun _ => scope) label ∧ Housed (fun _ => scope) label) = true →
      before.next label = some after → RebuildStep (fun _ => scope) before label after :=
    fun _ _ _ allowed goes => ⟨(of_decide_eq_true allowed).1, (of_decide_eq_true allowed).2, goes⟩
  obtain ⟨network, run, test⟩ := Transition.Run.of_follow_any taken followed
  obtain ⟨change, known, key, latest, passed, lands⟩ := of_decide_eq_true test
  exact ⟨network, run, change, known, key, rebuild_leaves_no_hole (fun _ => scope) notes
    Migrations.new rebuiltInTime network run scope change known latest passed lands⟩

/-- A batch pulled before the rebuild is delivered after it. -/
def outlived : List Network.Event :=
  [.append scope noteA, .pull scope onePage, .deliver 0, .append scope noteB, .pull scope onePage,
    .rebuild scope, .deliver 1]

theorem outlived_leaves_hole : ∃ network,
    Transition.Run (Step fun _ => scope) (start notes Migrations.new) outlived network ∧
    ∃ change ∈ (network.logs scope).changes,
      isLatest (network.logs scope).changes change = true ∧
      change.seq.get ≤ (network.cursor scope).get ∧ network.device.engine.lands change = true ∧
      network.device.db.version change.key ≠ change.held := by
  have followed : (Transition.follow (fun _ event => decide (Housed (fun _ => scope) event)) next
      (start notes Migrations.new) outlived).any (fun network =>
        decide (∃ change ∈ (network.logs scope).changes,
          isLatest (network.logs scope).changes change = true ∧
          change.seq.get ≤ (network.cursor scope).get ∧ network.device.engine.lands change = true ∧
          network.device.db.version change.key ≠ change.held)) = true := by
    decide +kernel
  have taken : ∀ before label after, decide (Housed (fun _ => scope) label) = true →
      before.next label = some after → Step (fun _ => scope) before label after :=
    fun _ _ _ allowed goes => ⟨of_decide_eq_true allowed, goes⟩
  obtain ⟨network, run, test⟩ := Transition.Run.of_follow_any taken followed
  exact ⟨network, run, of_decide_eq_true test⟩

end Sample

end CredSync
