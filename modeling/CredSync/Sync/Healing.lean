import CredSync.Core.Coherence
import CredSync.Sync.ScopeLog

/-! A rebuild followed by one complete bootstrap, page by page. The wipe takes the
entities the registry maps to the scope; rows of any other entity outlive it, and
the digest that starts over from nothing knows nothing of them. -/

namespace CredSync

/-- What an engine stores for a deleted row: none. -/
theorem Engine.storedEntry_delete (engine : Engine) (valid : change.validate = .ok ())
    (deleted : change.op = .delete) : (engine.storedEntry change).value = none := by
  unfold storedEntry
  cases landed : engine.landing change with
  | error e => rfl
  | ok stored =>
    obtain ⟨_, _, op, _⟩ := engine.landing_ok landed valid
    simp only [Change.row, op, deleted]

namespace Device

/-- The stored rows of a scope that its wipe does not reach. -/
def unlisted (device : Device) (home : EntityName → ScopeId) (scope : ScopeId) : Finset RowKey :=
  device.db.rows.keys.filter fun key =>
    home key.1 = scope ∧ device.engine.registry.scopeOf key.1 ≠ some scope

section Walk

variable [Hashing] {log : ScopeLog} {scope : ScopeId} {base before after now : Device}
  {page : BootstrapResponse} {carried : List Change}

/-- One page of a bootstrap: requested at the cursor in memory, and applied. -/
def AppliesPage (log : ScopeLog) (scope : ScopeId) (before : Device) (page : BootstrapResponse)
    (after : Device) : Prop :=
  (∃ request protocol,
      page = log.bootstrap request protocol scope (before.engine.scopeStateOr scope).cursor) ∧
    ∃ applied, before.applyBootstrap .none page = (.ok applied, after)

/-- What a client has after a scope was healed: the live rows, the digest it was
sent, and the attempts it took. -/
structure Healed (device : Device) (home : EntityName → ScopeId) (log : ScopeLog)
    (scope : ScopeId) (sent : HexString) (attempts : Nat) : Prop where
  rows : ∀ key : RowKey, home key.1 = scope → device.db.holding key =
    KeyedLog.live (log.changes.map device.engine.storedEntry) key
  digest : device.db.storedDigest scope = sent
  health : device.engine.scopeHealth scope = .healed attempts

omit [Hashing] in
/-- Memory that agrees with storage on a scope still does when it is refreshed. -/
theorem refreshIfSuspect_known
    (known : before.engine.scopeStateOr scope = before.db.position scope) :
    (before.refreshIfSuspect .none scope).2.engine.scopeStateOr scope = before.db.position scope := by
  unfold refreshIfSuspect
  split
  · have read : before.db.scopeState .none scope = .ok (before.db.stored scope) := rfl
    rw [read]
    cases stored : before.db.stored scope with
    | some stored' => simp [Engine.scopeStateOr, Db.position, stored]
    | none => simp [Engine.scopeStateOr, Db.position, stored, Finmap.lookup_erase]
  · exact known

/-- An applied page is a committed plan of the device as it was, but for what it
had to refresh. -/
theorem AppliesPage.plans (step : AppliesPage log scope before page after)
    (known : before.engine.scopeStateOr scope = before.db.position scope) :
    ∃ (fresh : Device) (plan : Plan), fresh.db = before.db ∧ fresh.engine.landing = before.engine.landing ∧
      fresh.engine.health = before.engine.health ∧
      fresh.engine.scopeStateOr scope = before.db.position scope ∧
      fresh.Plans page.toBatch (!page.hasMore) true plan ∧
      after = ⟨advance fresh.engine page.toBatch plan, fresh.db.staged plan.ops⟩ := by
  obtain ⟨⟨request, protocol, rfl⟩, applied, done⟩ := step
  obtain ⟨scopes, suspect, same⟩ := before.refreshIfSuspect_eq .none scope
  have refreshed := refreshIfSuspect_known known
  have applies := before.applyChanges_applies .none
    (log.bootstrap request protocol scope (before.engine.scopeStateOr scope).cursor).toBatch
    (!(log.bootstrap request protocol scope (before.engine.scopeStateOr scope).cursor).hasMore) true
  rw [← applyBootstrap, done] at applies
  change Applies (before.refreshIfSuspect .none scope).2 _ _ _ _ at applies
  cases applies with
  | committed plan trusted plans =>
    exact ⟨_, plan, by rw [same], by rw [same]; rfl, by rw [same], refreshed, plans, rfl⟩

/-- What a walk of pages has made of a device: every row's latest change up to the
cursor was written, but the deletes, and the digest moved by what was written. -/
structure Walked (log : ScopeLog) (scope : ScopeId) (base : Device) (carried : List Change)
    (now : Device) : Prop where
  landing : now.engine.landing = base.engine.landing
  known : now.engine.scopeStateOr scope = now.db.position scope
  holding : now.db.holding =
    KeyedLog.replay base.db.holding (carried.map base.engine.storedEntry)
  balance : ∀ keys : Finset RowKey, (∀ change ∈ carried, change.key ∈ keys) →
    (now.db.position scope).digest.raw - KeyedLog.weigh versionHash keys now.db.version =
      - KeyedLog.weigh versionHash keys base.db.version
  drawn : ∀ change ∈ carried, change ∈ log.changes ∧ isLatest log.changes change = true ∧
    change.seq.get ≤ (now.db.position scope).cursor.get
  ascending : KeyedLog.Ascending (fun change : Change => change.seq.get) carried
  complete : ∀ change ∈ log.changes, isLatest log.changes change = true → change.op ≠ .delete →
    change.seq.get ≤ (now.db.position scope).cursor.get → change ∈ carried

/-- An applied page is the next of the compacted log, with the log's digest. -/
theorem AppliesPage.carries (step : AppliesPage log scope before page after)
    (known : before.engine.scopeStateOr scope = before.db.position scope) :
    page.toBatch.scope = scope ∧ page.digest = (liveDigest log.changes).toHex ∧
      page.toBatch.Carries (before.db.position scope).cursor
        (log.compacted (before.db.position scope).cursor) := by
  obtain ⟨⟨request, protocol, rfl⟩, _⟩ := step
  rw [known]
  exact ⟨rfl, rfl, log.bootstrap_carries request protocol scope (before.db.position scope).cursor⟩

theorem Walked.step (walked : Walked log scope base carried before)
    (step : AppliesPage log scope before page after)
    (lands : ∀ change ∈ page.changes, base.engine.lands change = true) :
    Walked log scope base (carried ++ page.changes) after := by
  obtain ⟨fresh, plan, db, landing, _, state, plans, rfl⟩ := step.plans walked.known
  obtain ⟨place, _, carries⟩ := step.carries walked.known
  have position := plans.position scope
  rw [if_pos place.symm] at position
  obtain ⟨emitted, moved⟩ := advance_eq fresh.engine page.toBatch plan
  have landing' : fresh.engine.landing = base.engine.landing := landing.trans walked.landing
  have lands' : fresh.engine.lands = base.engine.lands := by
    funext change
    rw [Engine.lands, Engine.lands, landing']
  have stored : fresh.engine.storedEntry = base.engine.storedEntry := by
    funext change
    rw [Engine.storedEntry, Engine.storedEntry, landing']
  have all : page.toBatch.changes.filter fresh.engine.lands = page.changes := by
    rw [lands']
    exact List.filter_eq_self.mpr lands
  have holding := plans.holding
  have version := plans.version
  rw [all] at holding version
  have source : ∀ change ∈ page.changes, change ∈ log.changes ∧
      isLatest log.changes change = true ∧
        (before.db.position scope).cursor.get < change.seq.get := fun change member =>
    let inside := ScopeLog.mem_compacted.mp (carries.within.subset member)
    ⟨inside.1, inside.2.1, inside.2.2.1⟩
  have ascending : KeyedLog.Ascending (fun change : Change => change.seq.get) page.changes :=
    KeyedLog.Ascending.sublist (log.ascending.filter _) carries.within
  have forward : (before.db.position scope).cursor.get ≤ page.nextCursor.get := by
    have reached := carries.nextCursor
    rw [show page.nextCursor = page.toBatch.nextCursor from rfl, reached]
    exact KeyedLog.le_reached_of_above fun change member => (source change member).2.2
  refine ⟨?_, ?_, ?_, fun keys covers => ?_, fun change member => ?_, ?_, ?_⟩
  · rw [moved]
    exact landing'
  · rw [moved, position]
    exact (fresh.engine.scopeStateOr_insert _ _ _).trans (if_pos place.symm)
  · refine holding.trans ?_
    rw [db, walked.holding, stored, List.map_append, KeyedLog.replay_append]
  · have balance := plans.balance keys fun change member =>
      covers change (List.mem_append_right _ member)
    rw [place, state, db, walked.balance keys fun change member =>
      covers change (List.mem_append_left _ member)] at balance
    change _ - KeyedLog.weigh versionHash keys (fresh.db.staged plan.ops).version = _
    rw [position, version, db]
    exact balance
  · rw [position]
    rcases List.mem_append.mp member with member | member
    · obtain ⟨known, latest, below⟩ := walked.drawn change member
      exact ⟨known, latest, below.trans forward⟩
    · refine ⟨(source change member).1, (source change member).2.1, ?_⟩
      change _ ≤ page.toBatch.nextCursor.get
      rw [carries.nextCursor]
      exact ascending.le_reached member
  · refine KeyedLog.Ascending.append_iff.mpr ⟨walked.ascending, ascending, ?_⟩
    exact fun earlier inside later member =>
      (walked.drawn earlier inside).2.2.trans_lt (source later member).2.2
  · intro change member latest kept below
    rw [position] at below
    by_cases passed : change.seq.get ≤ (before.db.position scope).cursor.get
    · exact List.mem_append_left _ (walked.complete change member latest kept passed)
    · have later : change ∈ log.compacted (before.db.position scope).cursor :=
        ScopeLog.mem_compacted.mpr ⟨member, latest, Nat.lt_of_not_le passed, .inl kept⟩
      exact List.mem_append_right _ (carries.complete change later below)

/-- A last page leaves nothing out. -/
theorem Walked.finished (walked : Walked log scope base carried before)
    (step : AppliesPage log scope before page after) (last : page.hasMore = false) :
    ∀ change ∈ log.changes, isLatest log.changes change = true → change.op ≠ .delete →
      change ∈ carried ++ page.changes := by
  obtain ⟨_, _, carries⟩ := step.carries walked.known
  intro change member latest kept
  by_cases passed : change.seq.get ≤ (before.db.position scope).cursor.get
  · exact List.mem_append_left _ (walked.complete change member latest kept passed)
  · have whole : page.changes = log.compacted (before.db.position scope).cursor :=
      carries.finished last
    rw [whole]
    exact List.mem_append_right _
      (ScopeLog.mem_compacted.mpr ⟨member, latest, Nat.lt_of_not_le passed, .inl kept⟩)

/-- Pages before the last leave a scope's health as it is. -/
theorem AppliesPage.health (step : AppliesPage log scope before page after)
    (known : before.engine.scopeStateOr scope = before.db.position scope)
    (more : page.hasMore = true) : after.engine.scopeHealth scope = before.engine.scopeHealth scope := by
  obtain ⟨fresh, plan, _, _, health, _, plans, rfl⟩ := step.plans known
  obtain ⟨place, _⟩ := step.carries known
  rw [more] at plans
  rw [advance_health, if_pos place.symm, plans.record_uncompared, Engine.scopeHealth, health]
  rfl

/-- The last page heals a tainted scope exactly if its digest is the one reached. -/
theorem AppliesPage.heals (step : AppliesPage log scope before page after)
    (known : before.engine.scopeStateOr scope = before.db.position scope)
    (last : page.hasMore = false) (tainted : before.engine.scopeHealth scope = .tainted attempts) :
    after.engine.scopeHealth scope = .healed attempts ↔ after.db.storedDigest scope = page.digest := by
  obtain ⟨fresh, plan, _, _, health, _, plans, rfl⟩ := step.plans known
  obtain ⟨place, _⟩ := step.carries known
  have ill : fresh.engine.scopeHealth scope = .tainted attempts := by
    rw [← tainted, Engine.scopeHealth, Engine.scopeHealth, health]
  have digest : (fresh.db.staged plan.ops).storedDigest scope = plan.digest.toHex := by
    rw [← place]
    exact Db.storedDigest_written (by rw [plans.cursors, Finmap.lookup_insert])
      (by rw [plans.digests, Finmap.lookup_insert])
  have diverged := plans.diverged
  have escalated := plans.escalated
  have heals := plans.heals
  rw [place, ill] at escalated heals
  rw [digest, advance_health, if_pos place.symm, ill, Plan.record, escalated, heals]
  by_cases agree : plan.digest.toHex = page.digest
  · have calm : plan.diverged = false := by
      rw [diverged, last]
      exact decide_eq_false (not_not.mpr agree)
    simp [calm, last, agree, ScopeHealth.needsRebootstrap, ScopeHealth.attempts,
      Engine.restoredHealth]
  · have loud : plan.diverged = true := by
      rw [diverged, last]
      exact decide_eq_true agree
    simp only [loud, agree, iff_false]
    simp only [ScopeHealth.needsRebootstrap, Bool.and_self, Bool.or_true, if_true,
      Engine.restoredHealth, Bool.false_eq_true, if_false]
    split
    · intro impossible
      cases impossible
    · intro impossible
      cases impossible

theorem AppliesPage.storedDigest (step : AppliesPage log scope before page after)
    (known : before.engine.scopeStateOr scope = before.db.position scope) :
    after.db.storedDigest scope = (after.db.position scope).digest.toHex := by
  obtain ⟨fresh, plan, _, _, _, _, plans, rfl⟩ := step.plans known
  obtain ⟨place, _⟩ := step.carries known
  rw [plans.position, if_pos place.symm, ← place]
  exact Db.storedDigest_written (by rw [plans.cursors, Finmap.lookup_insert])
    (by rw [plans.digests, Finmap.lookup_insert])

/-- A walk whose last page is still to come. -/
theorem Walked.run {pages : List BootstrapResponse}
    (walked : Walked log scope base carried before)
    (run : Transition.Run (AppliesPage log scope) before pages now)
    (lands : ∀ page ∈ pages, ∀ change ∈ page.changes, base.engine.lands change = true)
    (more : ∀ page ∈ pages, page.hasMore = true) :
    Walked log scope base (carried ++ pages.flatMap (·.changes)) now ∧
      now.engine.scopeHealth scope = before.engine.scopeHealth scope := by
  induction run generalizing carried with
  | done => simpa using walked
  | next first rest ih =>
    have next := walked.step first (lands _ List.mem_cons_self)
    obtain ⟨final, health⟩ := ih next (fun page member => lands page (List.mem_cons_of_mem _ member))
      fun page member => more page (List.mem_cons_of_mem _ member)
    rw [List.flatMap_cons, ← List.append_assoc]
    exact ⟨final, health.trans (first.health walked.known (more _ List.mem_cons_self))⟩

/-- A row that was carried is the server's; any other is as it was before the walk,
and the server has none. -/
theorem Walked.row (walked : Walked log scope base carried now)
    (complete : ∀ change ∈ log.changes, isLatest log.changes change = true → change.op ≠ .delete →
      change ∈ carried)
    (lands : ∀ change ∈ carried, base.engine.lands change = true) (key : RowKey) :
    (∃ change ∈ carried, change.key = key) ∧
        now.db.holding key = KeyedLog.live (log.changes.map base.engine.storedEntry) key ∧
        now.db.version key = KeyedLog.live (log.changes.map Change.entry) key ∨
      (¬ ∃ change ∈ carried, change.key = key) ∧ now.db.holding key = base.db.holding key ∧
        KeyedLog.live (log.changes.map base.engine.storedEntry) key = none ∧
        KeyedLog.live (log.changes.map Change.entry) key = none := by
  have stored : ∀ change, (base.engine.storedEntry change).seq = change.seq.get ∧
      (base.engine.storedEntry change).key = change.key := fun _ => ⟨rfl, rfl⟩
  have plain : ∀ change : Change, change.entry.seq = change.seq.get ∧ change.entry.key = change.key :=
    fun _ => ⟨rfl, rfl⟩
  by_cases written : ∃ change ∈ carried, change.key = key
  · obtain ⟨change, member, rfl⟩ := written
    obtain ⟨known, latest, _⟩ := walked.drawn change member
    have row : now.db.holding change.key = (base.engine.storedEntry change).value := by
      rw [walked.holding]
      exact log.replay_latest stored (fun other inside => (walked.drawn other inside).1)
        walked.ascending member latest
    refine .inl ⟨⟨change, member, rfl⟩, row.trans (log.live_latest stored known latest).symm, ?_⟩
    rw [log.live_latest plain known latest]
    change (now.db.holding change.key).map _ = change.held
    rw [row]
    exact base.engine.storedEntry_version (log.valid change known) (lands change member)
  · have removed : ∀ change ∈ log.changes, isLatest log.changes change = true → change.key = key →
        change.op = .delete := by
      intro change known latest same
      by_contra kept
      exact written ⟨change, complete change known latest kept, same⟩
    refine .inr ⟨written, ?_, log.live_none stored ?_, log.live_none plain ?_⟩
    · rw [walked.holding, KeyedLog.replay_absent]
      intro entry inside same
      obtain ⟨change, member, rfl⟩ := List.mem_map.mp inside
      exact written ⟨change, member, same⟩
    · intro change known latest same
      exact base.engine.storedEntry_delete (log.valid change known) (removed change known latest same)
    · intro change known latest same
      simp [Change.entry, Change.held, removed change known latest same]

/-- The digest a walk ends with misses the rows that were there before it. -/
theorem Walked.digest {keys : Finset RowKey} (walked : Walked log scope base carried now)
    (covers : ∀ change ∈ log.changes, change.key ∈ keys)
    (rows : ∀ key ∈ keys, now.db.version key = KeyedLog.live (log.changes.map Change.entry) key) :
    (now.db.position scope).digest = liveDigest log.changes ↔
      KeyedLog.weigh versionHash keys base.db.version = 0 := by
  have balance := walked.balance keys fun change member => covers change (walked.drawn change member).1
  rw [KeyedLog.weigh_congr versionHash keys rows, ← liveDigest_raw covers, sub_eq_iff_eq_add,
    neg_add_eq_sub] at balance
  constructor
  · intro same
    rw [same, eq_comm, sub_eq_self] at balance
    exact balance
  · intro nothing
    rw [nothing, sub_zero] at balance
    exact congrArg ScopeDigest.mk balance

omit [Hashing] in
/-- What a rebuild leaves of a scope's rows. -/
private theorem rebuilt_holding (device : Device) (home : EntityName → ScopeId) (scope : ScopeId)
    {key : RowKey} (housed : home key.1 = scope) :
    (device.beginRebootstrap .none scope).2.db.holding key =
      if key ∈ device.unlisted home scope then device.db.holding key else none := by
  change (device.db.staged (device.engine.registry.rebootstrapOps scope)).holding key = _
  rw [Db.cleared_holding]
  cases held : device.db.rows.lookup key with
  | none => simp [Db.holding, held]
  | some row =>
    have stored : key ∈ device.db.rows.keys :=
      Finmap.mem_keys.mpr (Finmap.mem_of_lookup_eq_some held)
    by_cases mapped : device.engine.registry.scopeOf key.1 = some scope <;>
      simp [unlisted, mapped, housed, stored]

private theorem rebuilt_walked (device : Device) (log : ScopeLog) (scope : ScopeId) :
    Walked log scope (device.beginRebootstrap .none scope).2 []
      (device.beginRebootstrap .none scope).2 := by
  have position : (device.beginRebootstrap .none scope).2.db.position scope = ScopeState.new := by
    change (device.db.staged (device.engine.registry.rebootstrapOps scope)).position scope = _
    rw [Db.cleared_position, if_pos rfl]
  refine ⟨rfl, ?_, rfl, fun _ _ => ?_, List.forall_mem_nil _, .nil, fun change _ _ _ below => ?_⟩
  · rw [position]
    exact (device.engine.scopeStateOr_insert scope scope ScopeState.new).trans (if_pos rfl)
  · rw [position]
    exact zero_sub _
  · rw [position] at below
    exact absurd below (Nat.not_le.mpr change.seq.lower)

section Rebuilt

variable {device : Device} (home : EntityName → ScopeId)
  (walked : Walked log scope (device.beginRebootstrap .none scope).2 carried after)
  (complete : ∀ change ∈ log.changes, isLatest log.changes change = true → change.op ≠ .delete →
    change ∈ carried)
  (lands : ∀ change ∈ carried, device.engine.lands change = true)
include walked complete lands

/-- The rows are the server's exactly if every row that outlived the wipe was
written over. -/
private theorem rebuilt_rows :
    (∀ key : RowKey, home key.1 = scope → after.db.holding key =
      KeyedLog.live (log.changes.map device.engine.storedEntry) key) ↔
      ∀ key ∈ device.unlisted home scope, ∃ change ∈ carried, change.key = key := by
  have row := walked.row complete lands
  constructor
  · intro right key outlived
    obtain ⟨held, housed, _⟩ := Finset.mem_filter.mp outlived
    rcases row key with ⟨written, _⟩ | ⟨_, kept, absent, _⟩
    · exact written
    · have gone := (kept.symm.trans (right key housed)).trans absent
      rw [rebuilt_holding device home scope housed, if_pos outlived] at gone
      exact absurd (Finmap.mem_keys.mp held) (Finmap.lookup_eq_none.mp gone)
  · intro written key housed
    rcases row key with ⟨_, same, _⟩ | ⟨unwritten, kept, absent, _⟩
    · exact same
    · have wiped := rebuilt_holding device home scope housed
      rw [if_neg fun outlived => unwritten (written key outlived)] at wiped
      exact (kept.trans wiped).trans absent.symm

/-- With the rows right, the digest is right exactly if the rows that outlived the
wipe weighed nothing. -/
private theorem rebuilt_digest (housed : ∀ change ∈ log.changes, home change.entity = scope)
    (written : ∀ key ∈ device.unlisted home scope, ∃ change ∈ carried, change.key = key) :
    (after.db.position scope).digest = liveDigest log.changes ↔
      KeyedLog.weigh versionHash (device.unlisted home scope) device.db.version = 0 := by
  let keys := (log.changes.map Change.key).toFinset ∪ device.unlisted home scope
  have inScope : ∀ key ∈ keys, home key.1 = scope := by
    intro key inside
    rcases Finset.mem_union.mp inside with inside | inside
    · obtain ⟨change, member, rfl⟩ := List.mem_map.mp (List.mem_toFinset.mp inside)
      exact housed change member
    · exact (Finset.mem_filter.mp inside).2.1
  have outlived : KeyedLog.weigh versionHash keys
      (device.beginRebootstrap .none scope).2.db.version =
      KeyedLog.weigh versionHash (device.unlisted home scope) device.db.version := by
    refine (Finset.sum_subset Finset.subset_union_right fun key inside wiped => ?_).symm.trans
      (KeyedLog.weigh_congr versionHash _ fun key outlived => ?_)
    · have gone := rebuilt_holding device home scope (inScope key inside)
      rw [if_neg wiped] at gone
      change KeyedLog.share versionHash key (((device.beginRebootstrap .none scope).2.db.holding
        key).map _) = 0
      rw [gone]
      rfl
    · have kept := rebuilt_holding device home scope
        (inScope key (Finset.mem_union_right _ outlived))
      rw [if_pos outlived] at kept
      exact congrArg (Option.map _) kept
  rw [← outlived]
  refine walked.digest (fun change member => Finset.mem_union_left _
    (List.mem_toFinset.mpr (List.mem_map_of_mem member))) fun key inside => ?_
  rcases walked.row complete lands key with ⟨_, _, same⟩ | ⟨unwritten, kept, _, absent⟩
  · exact same
  · have wiped := rebuilt_holding device home scope (inScope key inside)
    rw [if_neg fun outlived => unwritten (written key outlived), ← kept] at wiped
    change (after.db.holding key).map _ = _
    rw [wiped, absent]
    rfl

end Rebuilt

/-- A rebuild heals exactly if no row of the scope outlives its wipe, or those that
do are all written over and add up to nothing in the digest. -/
theorem rebuild_heals_iff (home : EntityName → ScopeId) (log : ScopeLog) (scope : ScopeId)
    (device after : Device) (attempts : Nat) (pages : List BootstrapResponse)
    (last : BootstrapResponse) (housed : ∀ change ∈ log.changes, home change.entity = scope)
    (tainted : device.engine.scopeHealth scope = .tainted attempts)
    (walk : Transition.Run (AppliesPage log scope) (device.beginRebootstrap .none scope).2
      (pages ++ [last]) after)
    (more : ∀ page ∈ pages, page.hasMore = true) (finished : last.hasMore = false)
    (lands : ∀ page ∈ pages ++ [last], ∀ change ∈ page.changes,
      device.engine.lands change = true) :
    after.Healed home log scope last.digest attempts ↔
      (∀ key ∈ device.unlisted home scope,
        ∃ page ∈ pages ++ [last], ∃ change ∈ page.changes, change.key = key) ∧
      KeyedLog.weigh versionHash (device.unlisted home scope) device.db.version = 0 := by
  obtain ⟨middle, walk, ending⟩ := walk.of_append
  cases ending with
  | next ending rest =>
  cases rest
  obtain ⟨walked, health⟩ := (rebuilt_walked device log scope).run walk
    (fun page member => lands page (List.mem_append_left _ member)) more
  have whole := walked.step ending (lands last (List.mem_append_right _ List.mem_cons_self))
  have complete := walked.finished ending finished
  have heals := ending.heals walked.known finished (health.trans tainted)
  have stored : after.engine.storedEntry = device.engine.storedEntry := by
    funext change
    rw [Engine.storedEntry, Engine.storedEntry, whole.landing]
    rfl
  have digest : after.db.storedDigest scope = last.digest ↔
      (after.db.position scope).digest = liveDigest log.changes := by
    rw [ending.storedDigest walked.known, (ending.carries walked.known).2.1]
    exact ScopeDigest.toHex_injective.eq_iff
  have all : pages.flatMap (·.changes) ++ last.changes = (pages ++ [last]).flatMap (·.changes) := by
    rw [List.flatMap_append, List.flatMap_singleton]
  rw [List.nil_append, all] at whole complete
  have landed : ∀ change ∈ (pages ++ [last]).flatMap (·.changes),
      device.engine.lands change = true := by
    intro change member
    obtain ⟨page, inside, member⟩ := List.mem_flatMap.mp member
    exact lands page inside change member
  have written_iff : ∀ key, (∃ page ∈ pages ++ [last], ∃ change ∈ page.changes, change.key = key) ↔
      ∃ change ∈ (pages ++ [last]).flatMap (·.changes), change.key = key := by
    intro key
    constructor
    · rintro ⟨page, inside, change, member, same⟩
      exact ⟨change, List.mem_flatMap.mpr ⟨page, inside, member⟩, same⟩
    · rintro ⟨change, member, same⟩
      obtain ⟨page, inside, member⟩ := List.mem_flatMap.mp member
      exact ⟨page, inside, change, member, same⟩
  have rows := rebuilt_rows home whole complete landed
  have weighs := rebuilt_digest home whole complete landed housed
  simp only [written_iff]
  constructor
  · intro healed
    have written := rows.mp (by rw [← stored]; exact healed.rows)
    exact ⟨written, (weighs written).mp (digest.mp healed.digest)⟩
  · rintro ⟨written, nothing⟩
    have agrees := digest.mpr ((weighs written).mpr nothing)
    exact ⟨by rw [stored]; exact rows.mpr written, agrees, heals.mpr agrees⟩

end Walk

end Device

namespace Sample

attribute [local instance] noteHashes

/-- The server's log: one note. -/
def noteLog : ScopeLog := ScopeLog.append .empty noteA (fun _ member => nomatch member) rfl

/-- A device whose first batch came with a digest that was not its own. -/
def misled (registry : Registry) (change : Change) : Device :=
  ((Device.restart registry Migrations.new [scope] {}).applyBatch .none
    (lone change 2 ScopeDigest.empty)).2

/-- It rebuilds, and bootstraps in one page. -/
def rebuilt (registry : Registry) (change : Change) : Device :=
  ((misled registry change).beginRebootstrap .none scope).2

def onlyPage : BootstrapResponse :=
  noteLog.bootstrap onePage 1 scope Cursor.start

theorem rebuilt_applies (registry : Registry) (change : Change)
    (start : ((rebuilt registry change).engine.scopeStateOr scope).cursor = Cursor.start)
    (accepted : ((rebuilt registry change).applyBootstrap .none onlyPage).1.isOk = true) :
    Transition.Run (Device.AppliesPage noteLog scope) (rebuilt registry change) ([] ++ [onlyPage])
      ((rebuilt registry change).applyBootstrap .none onlyPage).2 := by
  refine .single ⟨⟨onePage, 1, by rw [start]; rfl⟩, ?_⟩
  cases answered : (rebuilt registry change).applyBootstrap .none onlyPage with
  | mk outcome after =>
    rw [answered] at accepted
    cases outcome with
    | error e => cases accepted
    | ok applied => exact ⟨applied, rfl⟩

/-- A stray row of a listed entity is wiped, and the scope heals. -/
theorem listed_heals : ((rebuilt notes noteB).applyBootstrap .none onlyPage).2.Healed (fun _ => scope)
    noteLog scope onlyPage.digest 1 := by
  have nothing : (misled notes noteB).unlisted (fun _ => scope) scope = ∅ := by decide +kernel
  refine (Device.rebuild_heals_iff (fun _ => scope) noteLog scope (misled notes noteB) _ 1 []
    onlyPage (fun _ _ => rfl) (by decide +kernel)
    (rebuilt_applies notes noteB (by decide +kernel) (by decide +kernel))
    (fun _ member => nomatch member) (by decide +kernel) (by decide +kernel)).mpr ?_
  rw [nothing]
  exact ⟨fun _ member => absurd member (Finset.notMem_empty _), rfl⟩

/-- The server's own row outlives the wipe of a client that does not list its entity,
is counted out of a digest it was never counted into, and the scope diverges again. -/
theorem unlisted_diverges : (misled Registry.new noteA).engine.scopeHealth scope = .tainted 1 ∧
    Transition.Run (Device.AppliesPage noteLog scope) (rebuilt Registry.new noteA) ([] ++ [onlyPage])
      ((rebuilt Registry.new noteA).applyBootstrap .none onlyPage).2 ∧
    onlyPage.hasMore = false ∧
    (∀ change ∈ onlyPage.changes, (misled Registry.new noteA).engine.lands change = true) ∧
    ¬ ((rebuilt Registry.new noteA).applyBootstrap .none onlyPage).2.Healed (fun _ => scope)
      noteLog scope onlyPage.digest 1 := by
  refine ⟨by decide +kernel, rebuilt_applies Registry.new noteA (by decide +kernel)
    (by decide +kernel), by decide +kernel, by decide +kernel, fun healed => ?_⟩
  have diverged : ((rebuilt Registry.new noteA).applyBootstrap .none onlyPage).2.engine.scopeHealth
      scope = .tainted 2 := by decide +kernel
  rw [healed.health] at diverged
  cases diverged

end Sample

end CredSync
