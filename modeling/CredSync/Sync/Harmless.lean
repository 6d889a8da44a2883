import CredSync.Sync.Delivery

/-! What pulled batches leave of a scope's integrity: no divergence where every
change lands, and nothing new from a batch that was applied before. -/

namespace CredSync

namespace Network

section Pulls

variable [Hashing] {home : EntityName → ScopeId} {before after : Network} {event : Event}
  {response : Response} {plan : Plan} {scope : ScopeId}

theorem committed_health (device : Device) (response : Response) (plan : Plan) (scope : ScopeId) :
    (committed device response plan).engine.scopeHealth scope =
      if scope = response.batch.scope then
        match plan.record (device.engine.scopeHealth scope).attempts with
        | some record => Engine.restoredHealth record.1 record.2
        | none => device.engine.scopeHealth scope
      else device.engine.scopeHealth scope :=
  Device.advance_health device.engine response.batch plan scope

/-- The divergence record a committed batch leaves. -/
theorem committed_divergences (device : Device) {response : Response} {plan : Plan}
    (plans : device.Plans response.batch compareDigest rebuilding plan) (scope : ScopeId) :
    (committed device response plan).db.divergences.lookup scope =
      if scope = response.batch.scope then
        match plan.record (device.engine.scopeHealth scope).attempts with
        | some record => some record
        | none => device.db.divergences.lookup scope
      else device.db.divergences.lookup scope := by
  obtain ⟨rows, quarantine, only⟩ := device.engine.staged_opFor device.db response.batch.changes
  rw [committed, plans.staged, only]
  by_cases same : scope = response.batch.scope
  · subst same
    rw [if_pos rfl]
    cases plan.record (device.engine.scopeHealth response.batch.scope).attempts with
    | some record => simp
    | none => rfl
  · rw [if_neg same]
    cases plan.record (device.engine.scopeHealth response.batch.scope).attempts with
    | some record => simp [same]
    | none => rfl

/-- A scope whose log's changes all land on the client. -/
def Lands (network : Network) (scope : ScopeId) : Prop :=
  ∀ change ∈ (network.logs scope).changes, network.device.engine.lands change = true

/-- The client's digest is the log's, and nothing was ever recorded against it. -/
structure Agrees (network : Network) (scope : ScopeId) : Prop where
  digest : (network.device.db.position scope).digest =
    liveDigest ((network.logs scope).upTo (network.cursor scope).get)
  healthy : network.device.engine.scopeHealth scope = .healthy
  unrecorded : network.device.db.divergences.lookup scope = none

omit [Hashing] in
theorem Lands.applied (lands : before.Lands scope) :
    before.applied scope = (before.logs scope).upTo (before.cursor scope).get :=
  List.filter_eq_self.mpr fun change member => lands change (List.mem_filter.mp member).1

/-- Where every change lands, a plan's digest is the log's up to its batch. -/
theorem Pulls.digest (pulls : before.Pulls home) (member : response ∈ before.responses)
    (inPlace : response.batch.changes = [] →
      response.batch.nextCursor = before.cursor response.batch.scope)
    (plans : before.device.Plans response.batch (!response.batch.hasMore) response.rebuilding plan)
    (lands : before.Lands response.batch.scope) (agrees : before.Agrees response.batch.scope) :
    plan.digest =
      liveDigest ((before.logs response.batch.scope).upTo response.batch.nextCursor.get) := by
  have continued := (pulls.continues member inPlace (pulls.ordered plans)).2
  let keys : Finset RowKey :=
    (((before.logs response.batch.scope).upTo response.batch.nextCursor.get).map Change.key).toFinset
  have covers : ∀ change ∈ (before.logs response.batch.scope).upTo response.batch.nextCursor.get,
      change.key ∈ keys := fun change inside =>
    List.mem_toFinset.mpr (List.mem_map_of_mem inside)
  have housed : ∀ key ∈ keys, home key.1 = response.batch.scope := by
    intro key inside
    obtain ⟨change, known, rfl⟩ := List.mem_map.mp (List.mem_toFinset.mp inside)
    exact pulls.housed _ change (List.mem_filter.mp known).1
  have versions : ∀ key ∈ keys, before.device.db.version key = KeyedLog.live
      (((before.logs response.batch.scope).upTo
        (before.cursor response.batch.scope).get).map Change.entry) key := by
    intro key inside
    rw [pulls.rows key, housed key inside, lands.applied]
  have carried : ∀ change ∈ response.batch.changes, change.key ∈ keys := by
    intro change inside
    exact covers change (continued ▸ List.mem_append_right _ inside)
  have balance := plans.balance keys carried
  have state : (before.device.engine.scopeStateOr response.batch.scope).digest.raw =
      KeyedLog.weigh versionHash keys before.device.db.version := by
    have known : response.batch.scope ∉ before.device.engine.suspect := by
      rw [pulls.trusted]
      exact Finset.notMem_empty _
    have earlier : ∀ change ∈ (before.logs response.batch.scope).upTo
        (before.cursor response.batch.scope).get, change.key ∈ keys :=
      fun change inside => covers change (continued ▸ List.mem_append_left _ inside)
    rw [pulls.mirrors _ known, agrees.digest, liveDigest_raw earlier]
    exact KeyedLog.weigh_congr versionHash keys fun key inside => (versions key inside).symm
  have moved : KeyedLog.weigh versionHash keys
      (KeyedLog.replay before.device.db.version (response.batch.changes.map Change.entry)) =
        (liveDigest ((before.logs response.batch.scope).upTo response.batch.nextCursor.get)).raw := by
    rw [liveDigest_raw covers, continued, List.map_append, KeyedLog.live, KeyedLog.replay_append]
    exact KeyedLog.weigh_congr versionHash keys fun key inside =>
      KeyedLog.replay_at (versions key inside)
  rw [state, sub_self, sub_eq_zero, moved] at balance
  exact congrArg ScopeDigest.mk balance

/-- A scope in agreement that needs no rebuild, or in a known disagreement, gets
no new record from a pulled batch. -/
theorem plans_record_none {device : Device}
    (plans : device.Plans response.batch compareDigest false plan)
    (settled : plan.diverged = false ∧
        (device.engine.scopeHealth response.batch.scope).needsRebootstrap = false ∨
      plan.diverged = true ∧ (device.engine.scopeHealth response.batch.scope).isHealthy = false) :
    plan.record (device.engine.scopeHealth response.batch.scope).attempts = none := by
  have escalated := plans.escalated
  have heals := plans.heals
  rcases settled with ⟨agrees, calm⟩ | ⟨disagrees, known⟩
  · rw [agrees, Bool.false_and, if_neg Bool.false_ne_true] at escalated
    rw [calm, Bool.and_false] at heals
    rw [Plan.record, escalated, heals]
    rfl
  · rw [known, Bool.false_and, Bool.or_false, Bool.and_false, if_neg Bool.false_ne_true] at escalated
    rw [disagrees, Bool.not_true, Bool.and_false, Bool.false_and] at heals
    rw [Plan.record, escalated, heals]
    rfl

theorem PullStep.lands (step : PullStep home before event after) (pulls : before.Pulls home)
    (lands : after.Lands scope) : before.Lands scope := by
  obtain ⟨⟨isPull, _⟩, step⟩ := step
  cases step.moves pulls.toSound with
  | append other change newer valid =>
    intro earlier member
    by_cases same : scope = other
    · subst same
      refine lands earlier ?_
      rw [written_same]
      exact ScopeLog.mem_append.mpr (.inl member)
    · refine lands earlier ?_
      rw [written_other same]
      exact member
  | request => exact lands
  | refused => exact lands
  | applied index response found plan plans =>
    rw [Lands, committed_lands] at lands
    exact lands
  | rebuild scope => exact isPull.elim

/-- Where every change lands, an applied batch leaves the client in agreement. -/
private theorem Agrees.commit (agrees : before.Agrees scope) (pulls : before.Pulls home)
    (member : response ∈ before.responses)
    (inPlace : response.batch.changes = [] →
      response.batch.nextCursor = before.cursor response.batch.scope)
    (lands : before.Lands scope)
    (plans : before.device.Plans response.batch (!response.batch.hasMore) false plan) :
    Agrees { before with device := committed before.device response plan } scope := by
  have pulled := pulls.pulled response member
  have plans' := plans
  rw [← pulled] at plans'
  by_cases same : scope = response.batch.scope
  · subst same
    have digest := pulls.digest member inPlace plans' lands agrees
    have diverged : plan.diverged = false := by
      rw [plans.diverged]
      by_cases more : response.batch.hasMore = true
      · rw [more]
        rfl
      · have finished := eq_false_of_ne_true more
        rw [digest, (pulls.drawn response member).digest pulled finished]
        simp
    have unrecorded := plans_record_none plans (.inl ⟨diverged, by rw [agrees.healthy]; rfl⟩)
    refine ⟨?_, ?_, ?_⟩
    · rw [committed_cursor plans', if_pos rfl, ← digest, committed, plans.position, if_pos rfl]
    · rw [committed_health, if_pos rfl, unrecorded]
      exact agrees.healthy
    · rw [committed_divergences _ plans, if_pos rfl, unrecorded]
      exact agrees.unrecorded
  · refine ⟨?_, ?_, ?_⟩
    · rw [committed_cursor plans', if_neg same, committed, plans.position, if_neg same]
      exact agrees.digest
    · rw [committed_health, if_neg same]
      exact agrees.healthy
    · rw [committed_divergences _ plans, if_neg same]
      exact agrees.unrecorded

/-- Where every change lands, a client never disagrees with the server. -/
theorem PullStep.agrees (step : PullStep home before event after) (pulls : before.Pulls home)
    (lands : after.Lands scope) (agrees : before.Agrees scope) : after.Agrees scope := by
  have landed := step.lands pulls lands
  obtain ⟨⟨isPull, inPlace⟩, step⟩ := step
  cases step.moves pulls.toSound with
  | append other change newer valid =>
    refine ⟨agrees.digest.trans ?_, agrees.healthy, agrees.unrecorded⟩
    by_cases same : scope = other
    · subst same
      rw [written_same]
      exact congrArg liveDigest (ScopeLog.upTo_append (pulls.marked scope)).symm
    · rw [written_other same]
      rfl
  | request => exact ⟨agrees.digest, agrees.healthy, agrees.unrecorded⟩
  | refused => exact agrees
  | applied index response found plan plans =>
    have member := List.mem_of_getElem? found
    rw [pulls.pulled response member] at plans
    exact agrees.commit pulls member (inPlace response found) landed plans
  | rebuild scope => exact isPull.elim

/-! ### Repeated batches -/

/-- An empty batch that was applied, while the cursor is still where it was: the
scope is stored as it is in memory, and the batch's digest has been judged. -/
structure Rests (network : Network) (response : Response) : Prop where
  empty : response.batch.changes = []
  place : response.requested = network.cursor response.batch.scope
  cursors : network.device.db.cursors.lookup response.batch.scope =
    some (network.cursor response.batch.scope)
  digests : network.device.db.digests.lookup response.batch.scope =
    some (network.device.db.position response.batch.scope).digest.toHex
  memory : network.device.engine.scopes.lookup response.batch.scope =
    some (network.device.db.position response.batch.scope)
  judged : response.batch.hasMore = false →
    ((network.device.db.position response.batch.scope).digest.toHex = response.batch.digest ∧
        (network.device.engine.scopeHealth response.batch.scope).needsRebootstrap = false) ∨
      ((network.device.db.position response.batch.scope).digest.toHex ≠ response.batch.digest ∧
        (network.device.engine.scopeHealth response.batch.scope).isHealthy = false)

/-- What holds of a batch from the moment it is applied. -/
def Absorbed (network : Network) (response : Response) : Prop :=
  response.requested.get < (network.cursor response.batch.scope).get ∨ network.Rests response

/-- An empty batch leaves the digest as it is. -/
theorem Pulls.digest_empty (pulls : before.Pulls home) (empty : response.batch.changes = [])
    (plans : before.device.Plans response.batch compareDigest rebuilding plan) :
    plan.digest = (before.device.db.position response.batch.scope).digest := by
  have known : response.batch.scope ∉ before.device.engine.suspect := by
    rw [pulls.trusted]
    exact Finset.notMem_empty _
  have nothing : ∀ change ∈ response.batch.changes, change.key ∈ (∅ : Finset RowKey) := by
    intro change member
    rw [empty] at member
    cases member
  have balance := plans.balance ∅ nothing
  rw [pulls.mirrors _ known] at balance
  exact congrArg ScopeDigest.mk (by simpa [KeyedLog.weigh] using balance)

/-- What a compared digest leaves of a scope's health. -/
theorem committed_judged {device : Device}
    (plans : device.Plans response.batch true false plan) :
    (plan.digest.toHex = response.batch.digest ∧
        ((committed device response plan).engine.scopeHealth
          response.batch.scope).needsRebootstrap = false) ∨
      (plan.digest.toHex ≠ response.batch.digest ∧
        ((committed device response plan).engine.scopeHealth
          response.batch.scope).isHealthy = false) := by
  have diverged := plans.diverged
  have escalated := plans.escalated
  have heals := plans.heals
  rw [committed_health, if_pos rfl, Plan.record, escalated, heals]
  by_cases agree : plan.digest.toHex = response.batch.digest
  · left
    have calm : plan.diverged = false := by simp [diverged, agree]
    refine ⟨agree, ?_⟩
    cases needs : (device.engine.scopeHealth response.batch.scope).needsRebootstrap with
    | false => simpa [calm] using needs
    | true => simp [calm, Engine.restoredHealth, ScopeHealth.needsRebootstrap]
  · right
    have loud : plan.diverged = true := by simp [diverged, agree]
    refine ⟨agree, ?_⟩
    cases healthy : (device.engine.scopeHealth response.batch.scope).isHealthy with
    | false => simpa [loud] using healthy
    | true =>
      simp only [loud, Bool.true_or, Bool.and_self, if_true, Engine.restoredHealth,
        Bool.false_eq_true, if_false]
      split <;> rfl

/-- A batch is absorbed by being applied. -/
theorem Pulls.absorbs (pulls : before.Pulls home) (member : response ∈ before.responses)
    (plans : before.device.Plans response.batch (!response.batch.hasMore) response.rebuilding plan) :
    Absorbed { before with device := committed before.device response plan } response := by
  have pulled := pulls.pulled response member
  have drawn := pulls.drawn response member
  have cursor := committed_cursor plans response.batch.scope
  rw [if_pos rfl] at cursor
  have position := plans.position response.batch.scope
  rw [if_pos rfl] at position
  by_cases empty : response.batch.changes = []
  · refine .inr ⟨empty, ?_, ?_, ?_, ?_, fun finished => ?_⟩
    · rw [cursor, drawn.stays empty]
    · rw [cursor, committed, plans.cursors, Finmap.lookup_insert]
    · rw [committed, position, plans.digests, Finmap.lookup_insert]
    · obtain ⟨emitted, moved⟩ := Device.advance_eq before.device.engine response.batch plan
      rw [committed, moved, position, Finmap.lookup_insert]
    · rw [finished, pulled] at plans
      have judged := committed_judged plans
      rw [committed] at judged ⊢
      rw [position]
      exact judged
  · left
    obtain ⟨change, inside⟩ := List.exists_mem_of_ne_nil _ empty
    rw [cursor]
    exact (drawn.drawn change inside).2.trans_le (drawn.below inside)

/-- What a batch at rest makes of its scope's record: nothing. -/
theorem Rests.record (rests : before.Rests response) (pulls : before.Pulls home)
    (plans : before.device.Plans response.batch (!response.batch.hasMore) false plan) :
    plan.record (before.device.engine.scopeHealth response.batch.scope).attempts = none := by
  cases more : response.batch.hasMore with
  | true =>
    rw [more] at plans
    exact plans.record_uncompared
  | false =>
    rw [more] at plans
    refine plans_record_none plans ?_
    rw [plans.diverged, pulls.digest_empty rests.empty plans]
    exact (rests.judged more).imp (fun judged => by simp [judged]) fun judged => by simp [judged]

/-- An applied empty batch changes nothing when it comes again. -/
theorem Rests.unchanged (rests : before.Rests response) (pulls : before.Pulls home)
    (member : response ∈ before.responses)
    (plans : before.device.Plans response.batch (!response.batch.hasMore) false plan) :
    committed before.device response plan = before.device := by
  have digest := pulls.digest_empty rests.empty plans
  have place := ((pulls.drawn response member).stays rests.empty).trans rests.place
  have quarantined := plans.quarantined
  rw [rests.empty, List.filter_nil, List.map_nil, List.map_eq_nil_iff] at quarantined
  have record := rests.record pulls plans
  have engine := Device.advance_effects before.device.engine response.batch plan quarantined record
  have position : ScopeState.mk response.batch.nextCursor plan.digest =
      before.device.db.position response.batch.scope := by
    rw [place, digest]
    rfl
  have staged := plans.staged
  rw [rests.empty, record, digest, place, Table.insert_lookup _ rests.cursors,
    Table.insert_lookup _ rests.digests] at staged
  rw [committed, engine, staged, position, Table.insert_lookup _ rests.memory]
  rfl

/-- What was absorbed stays absorbed over every step. -/
theorem Absorbed.step (absorbed : before.Absorbed response) (pulls : before.Pulls home)
    (member : response ∈ before.responses) (step : PullStep home before event after) :
    after.Absorbed response := by
  have forward := (step.pulls pulls).2 response.batch.scope
  rcases absorbed with past | rests
  · exact .inl (past.trans_le forward)
  obtain ⟨⟨isPull, inPlace⟩, step⟩ := step
  cases step.moves pulls.toSound with
  | append => exact .inr ⟨rests.empty, rests.place, rests.cursors, rests.digests, rests.memory, rests.judged⟩
  | request => exact .inr ⟨rests.empty, rests.place, rests.cursors, rests.digests, rests.memory, rests.judged⟩
  | refused => exact .inr rests
  | applied index other found plan plans =>
    have inside := List.mem_of_getElem? found
    by_cases same : response.batch.scope = other.batch.scope
    · have prompt := (pulls.continues inside (inPlace other found) (pulls.ordered plans)).1
      have together : response.requested = other.requested := by rw [rests.place, prompt, same]
      rcases pulls.absorbs inside plans with past | absorbed
      · left
        rw [together, same]
        exact past
      · refine .inr ⟨rests.empty, ?_, ?_, ?_, ?_, fun finished => ?_⟩
        · rw [together, absorbed.place, same]
        · rw [same]
          exact absorbed.cursors
        · rw [same]
          exact absorbed.digests
        · rw [same]
          exact absorbed.memory
        · rw [same]
          cases more : other.batch.hasMore with
          | false =>
            -- both empty batches carry the digest of the log up to the one cursor
            have digests : response.batch.digest = other.batch.digest := by
              rw [(pulls.drawn response member).digest (pulls.pulled response member) finished,
                (pulls.drawn other inside).digest (pulls.pulled other inside) more, same,
                (pulls.drawn response member).stays rests.empty,
                (pulls.drawn other inside).stays absorbed.empty, together]
            rw [digests]
            exact absorbed.judged more
          | true =>
            rw [more] at plans
            have judged := rests.judged finished
            rw [committed_health, if_pos rfl, plans.record_uncompared, committed,
              plans.position, if_pos rfl, pulls.digest_empty absorbed.empty plans, ← same]
            exact judged
    · have elsewhere := committed_cursor plans response.batch.scope
      rw [if_neg same] at elsewhere
      obtain ⟨emitted, moved⟩ := Device.advance_eq before.device.engine other.batch plan
      refine .inr ⟨rests.empty, ?_, ?_, ?_, ?_, fun finished => ?_⟩
      · rw [elsewhere]
        exact rests.place
      · rw [elsewhere, committed, plans.cursors, Finmap.lookup_insert_of_ne _ same]
        exact rests.cursors
      · rw [committed, plans.digests, Finmap.lookup_insert_of_ne _ same, plans.position, if_neg same]
        exact rests.digests
      · rw [committed, moved, plans.position, if_neg same]
        exact (Finmap.lookup_insert_of_ne _ same).trans rests.memory
      · rw [committed_health, if_neg same, committed, plans.position, if_neg same]
        exact rests.judged finished
  | rebuild scope => exact isPull.elim

/-- A response in flight stays where it is. -/
theorem Step.keeps_found (step : Step home before event after) (sound : before.Sound home)
    {index : Nat} (found : before.responses[index]? = some response) :
    after.responses[index]? = some response := by
  cases step.moves sound with
  | request => exact List.getElem?_append_left (List.getElem?_eq_some_iff.mp found).1 |>.trans found
  | append | refused | applied | rebuild => exact found

/-- A batch that was absorbed changes nothing when it is delivered. -/
theorem Absorbed.unchanged (absorbed : before.Absorbed response) (pulls : before.Pulls home)
    {index : Nat} (found : before.responses[index]? = some response)
    (step : PullStep home before (.deliver index) after) : after = before := by
  rcases absorbed with past | rests
  · exact pulls.late_refused found (fun same => absurd past (by rw [same]; exact lt_irrefl _)) step
  obtain ⟨⟨_, inPlace⟩, step⟩ := step
  cases step.moves pulls.toSound with
  | refused => rfl
  | applied _ other found' plan plans =>
    cases found.symm.trans found'
    have member := List.mem_of_getElem? found
    rw [pulls.pulled response member] at plans
    rw [rests.unchanged pulls member plans]
  | request _ _ asked =>
    rcases asked with ⟨_, _, impossible, _⟩ | ⟨_, _, _, impossible⟩ <;> cases impossible

/-- Pull delivery in any order is harmless while empty batches are delivered in
place: cursors never go back, each row is as the applied changes leave it, and a
late or repeated response changes nothing, let alone records a divergence; none is
recorded at all for a scope whose changes all land. -/
theorem pulls_in_any_order_are_harmless (home : EntityName → ScopeId) (registry : Registry)
    (migrations : Migrations) (labels : List Event) (network : Network)
    (run : Transition.Run (PullStep home) (start registry migrations) labels network) :
    (∀ labels' later, Transition.Run (PullStep home) network labels' later →
      network.Forward later) ∧
    (∀ key, network.device.db.version key =
      KeyedLog.live ((network.applied (home key.1)).map Change.entry) key) ∧
    (∀ index response after, network.responses[index]? = some response →
      response.requested ≠ network.cursor response.batch.scope →
      PullStep home network (.deliver index) after → after = network) ∧
    (∀ index response applied after labels' later again,
      network.responses[index]? = some response →
      (network.device.deliver response).1 = .ok applied →
      PullStep home network (.deliver index) after →
      Transition.Run (PullStep home) after labels' later →
      PullStep home later (.deliver index) again → again = later) ∧
    (∀ scope, network.Lands scope → network.device.engine.scopeHealth scope = .healthy ∧
      network.device.db.divergences.lookup scope = none) := by
  have steps : ∀ before label after, before.Pulls home → PullStep home before label after →
      after.Pulls home := fun before label after pulls step => (step.pulls pulls).1
  have initially : (start registry migrations).Pulls home :=
    ⟨start_sound home registry migrations, (fun _ member => nomatch member),
      (fun _ member => nomatch member), fun _ => rfl⟩
  have pulls := run.invariant steps initially
  have forward : ∀ before label after, before.Pulls home → PullStep home before label after →
      before.Forward after := fun before label after pulls step => (step.pulls pulls).2
  refine ⟨fun labels' later rest => rest.relates Forward.refl Forward.trans steps forward pulls,
    pulls.rows,
    fun index response after found late step => pulls.late_refused found late step,
    fun index response applied after labels' later again found accepted step rest repeated => ?_,
    fun scope lands => ?_⟩
  · have pulls' := steps _ _ _ pulls step
    have absorbed : after.Absorbed response := by
      obtain ⟨⟨_, inPlace⟩, taken⟩ := step
      cases taken.moves pulls.toSound with
      | refused _ other found' refused =>
        cases found.symm.trans found'
        obtain ⟨e, refused⟩ := refused
        rw [refused] at accepted
        cases accepted
      | applied _ other found' plan plans =>
        cases found.symm.trans found'
        exact pulls.absorbs (List.mem_of_getElem? found) plans
      | request _ _ asked =>
        rcases asked with ⟨_, _, impossible, _⟩ | ⟨_, _, _, impossible⟩ <;> cases impossible
    have found' := step.2.keeps_found pulls.toSound found
    have kept : ∀ before label after,
        (before.Pulls home ∧ before.responses[index]? = some response ∧ before.Absorbed response) →
        PullStep home before label after →
        after.Pulls home ∧ after.responses[index]? = some response ∧ after.Absorbed response := by
      rintro before label after ⟨pulls, found, absorbed⟩ step
      exact ⟨steps _ _ _ pulls step, step.2.keeps_found pulls.toSound found,
        absorbed.step pulls (List.mem_of_getElem? found) step⟩
    obtain ⟨pulls, found, absorbed⟩ := rest.invariant kept ⟨pulls', found', absorbed⟩
    exact absorbed.unchanged pulls found repeated
  · have kept : ∀ before label after,
        (before.Pulls home ∧ (before.Lands scope → before.Agrees scope)) →
        PullStep home before label after →
        after.Pulls home ∧ (after.Lands scope → after.Agrees scope) := by
      rintro before label after ⟨pulls, agrees⟩ step
      exact ⟨steps _ _ _ pulls step, fun lands =>
        step.agrees pulls lands (agrees (step.lands pulls lands))⟩
    have agrees := (run.invariant kept ⟨initially, fun _ => ⟨rfl, rfl, rfl⟩⟩).2 lands
    exact ⟨agrees.healthy, agrees.unrecorded⟩

end Pulls

end Network

namespace Sample

open Network

attribute [local instance] noteHashes

/-- Each batch is delivered again after the next; the empty one only in place. -/
def repeatedPulls : List Network.Event :=
  [.append scope noteA, .pull scope onePage, .deliver 0, .pull scope onePage, .deliver 1, .deliver 0,
    .deliver 1, .append scope noteB, .pull scope onePage, .deliver 2, .deliver 0, .deliver 2]

theorem repeatedPulls_agree : ∃ network,
    Transition.Run (PullStep fun _ => scope) (start Registry.new Migrations.new) repeatedPulls network ∧
    (network.cursor scope).get = 2 ∧ network.device.engine.scopeHealth scope = .healthy := by
  have followed : (Transition.follow
      (fun network event => decide ((event.IsPull ∧ network.KeepsPlace event) ∧
        Housed (fun _ => scope) event))
      next (start Registry.new Migrations.new) repeatedPulls).any (fun network =>
        (network.cursor scope).get = 2 &&
          (network.logs scope).changes.all network.device.engine.lands) = true := by
    decide +kernel
  have taken : ∀ before label after,
      decide ((label.IsPull ∧ before.KeepsPlace label) ∧ Housed (fun _ => scope) label) = true →
      before.next label = some after → PullStep (fun _ => scope) before label after :=
    fun _ _ _ allowed goes => ⟨(of_decide_eq_true allowed).1, (of_decide_eq_true allowed).2, goes⟩
  obtain ⟨network, run, test⟩ := Transition.Run.of_follow_any taken followed
  obtain ⟨cursor, lands⟩ := Bool.and_eq_true_iff.mp test
  have kept := pulls_in_any_order_are_harmless (fun _ => scope) Registry.new Migrations.new
    repeatedPulls network run
  exact ⟨network, run, of_decide_eq_true cursor,
    (kept.2.2.2.2 scope fun change member => List.all_eq_true.mp lands change member).1⟩

/-- An empty batch is overtaken by the next one, and arrives last. -/
def overtaken : List Network.Event :=
  [.append scope noteA, .pull scope onePage, .deliver 0, .pull scope onePage, .append scope noteB,
    .pull scope onePage, .deliver 2]

theorem overtaken_regresses : ∃ before after,
    Transition.Run (Step fun _ => scope) (start Registry.new Migrations.new) overtaken before ∧
    Step (fun _ => scope) before (.deliver 1) after ∧
    (after.cursor scope).get < (before.cursor scope).get ∧
    before.device.db.divergences.lookup scope = none ∧
    after.device.db.divergences.lookup scope = some (1, false) ∧
    after.device.engine.scopeHealth scope = .tainted 1 := by
  let run := Transition.follow (fun _ event => decide (Housed (fun _ => scope) event)) next
  have followed : (run (start Registry.new Migrations.new) overtaken).any (fun before =>
      decide (before.device.db.divergences.lookup scope = none) &&
        (run before [.deliver 1]).any fun after =>
          decide ((after.cursor scope).get < (before.cursor scope).get ∧
            after.device.db.divergences.lookup scope = some (1, false) ∧
            after.device.engine.scopeHealth scope = .tainted 1)) = true := by
    decide +kernel
  have taken : ∀ before label after, decide (Housed (fun _ => scope) label) = true →
      before.next label = some after → Step (fun _ => scope) before label after :=
    fun _ _ _ allowed goes => ⟨of_decide_eq_true allowed, goes⟩
  obtain ⟨before, ran, test⟩ := Transition.Run.of_follow_any taken followed
  obtain ⟨clean, late⟩ := Bool.and_eq_true_iff.mp test
  obtain ⟨after, delivered, test⟩ := Transition.Run.of_follow_any taken late
  obtain ⟨regressed, recorded, tainted⟩ := of_decide_eq_true test
  cases delivered with
  | next step rest =>
    cases rest
    exact ⟨before, after, ran, step, regressed, of_decide_eq_true clean, recorded, tainted⟩

end Sample

end CredSync
