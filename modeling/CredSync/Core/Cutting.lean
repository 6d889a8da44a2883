import CredSync.Core.Acceptance
import CredSync.Core.Refusal

/-! Where a batch is cut does not matter: over honest storage, applying a batch and
applying the pieces of any cut of it one after another are the same. -/

namespace CredSync

/-- One cut of a batch: a first piece that ends at its last change and promises more, and
the rest, which ends as the batch does. Checksums and the first piece's digest are free. -/
structure Batch.CutInto (batch first rest : Batch) : Prop where
  changes : batch.changes = first.changes ++ rest.changes
  present : first.changes ≠ []
  left : rest.changes ≠ []
  scope : first.scope = batch.scope
  scope' : rest.scope = batch.scope
  hasMore : first.hasMore = true
  covers : ∀ last ∈ first.changes.getLast?, first.nextCursor.get = last.seq.get
  nextCursor : rest.nextCursor = batch.nextCursor
  hasMore' : rest.hasMore = batch.hasMore
  digest : rest.digest = batch.digest

/-- The pieces of a batch, cut anywhere and any number of times. -/
inductive Batch.Pieces : Batch → List Batch → Prop where
  | whole (batch : Batch) : Pieces batch [batch]
  | cut (into : Batch.CutInto batch first rest) (pieces : rest.Pieces later) :
      Pieces batch (first :: later)

theorem Batch.CutInto.ordered_iff {batch first rest : Batch} (cut : batch.CutInto first rest)
    (cursor : Nat) :
    batch.Ordered cursor ↔ first.Ordered cursor ∧ rest.Ordered first.nextCursor.get := by
  obtain ⟨front, last, split⟩ := List.eq_nil_or_concat first.changes |>.resolve_left cut.present
  rw [List.concat_eq_append] at split
  have final : last ∈ first.changes := by simp [split]
  have covers : first.nextCursor.get = last.seq.get := cut.covers last (by simp [split])
  have inside : ∀ change, change ∈ batch.changes ↔ change ∈ first.changes ∨ change ∈ rest.changes := by
    intro change
    rw [cut.changes, List.mem_append]
  constructor
  · intro ordered
    have ascending := ordered.ascending
    rw [cut.changes] at ascending
    obtain ⟨early, late, across⟩ := List.pairwise_append.mp ascending
    refine ⟨⟨?_, ?_, early, ?_⟩, ⟨?_, ?_, late, ?_⟩⟩
    · intro change member
      exact ordered.above change ((inside change).mpr (.inl member))
    · intro change member
      exact ordered.valid change ((inside change).mpr (.inl member))
    · intro change member
      rw [covers]
      rw [split] at member early
      rcases List.mem_append.mp member with earlier | same
      · exact ((List.pairwise_append.mp early).2.2 change earlier last List.mem_cons_self).le
      · rw [List.mem_singleton.mp same]
    · intro change member
      rw [covers]
      exact across last final change member
    · intro change member
      exact ordered.valid change ((inside change).mpr (.inr member))
    · intro change member
      rw [cut.nextCursor]
      exact ordered.covered change ((inside change).mpr (.inr member))
  · rintro ⟨early, late⟩
    obtain ⟨next, others, following⟩ := List.exists_cons_of_ne_nil cut.left
    have onward : first.nextCursor.get < batch.nextCursor.get := by
      have member : next ∈ rest.changes := by simp [following]
      rw [← cut.nextCursor]
      exact (late.above next member).trans_le (late.covered next member)
    refine ⟨?_, ?_, ?_, ?_⟩
    · intro change member
      rcases (inside change).mp member with member | member
      · exact early.above change member
      · have reached := early.above last final
        rw [← covers] at reached
        exact reached.trans (late.above change member)
    · intro change member
      rcases (inside change).mp member with member | member
      · exact early.valid change member
      · exact late.valid change member
    · rw [cut.changes]
      apply List.pairwise_append.mpr
      refine ⟨early.ascending, late.ascending, ?_⟩
      intro change member other member'
      exact (early.covered change member).trans_lt (late.above other member')
    · intro change member
      rcases (inside change).mp member with member | member
      · exact (early.covered change member).trans onward.le
      · rw [← cut.nextCursor]
        exact late.covered change member

@[simp] theorem Engine.opFor_restoreScope (engine : Engine) (scope : ScopeId) (state : ScopeState) :
    (engine.restoreScope scope state).opFor = engine.opFor := rfl

@[simp] theorem Engine.scopeHealth_restoreScope (engine : Engine) (scope other : ScopeId)
    (state : ScopeState) :
    (engine.restoreScope scope state).scopeHealth other = engine.scopeHealth other := rfl

/-- Row writes do not care where the scope stands. -/
theorem Engine.staged_opFor_frame (engine : Engine) (db : Db) (changes : List Change)
    (cursors : Table ScopeId Cursor) (digests : Table ScopeId HexString)
    (divergences : Table ScopeId (Nat × Bool)) :
    Db.staged { db with cursors := cursors, digests := digests, divergences := divergences }
        (changes.map engine.opFor) =
      { db.staged (changes.map engine.opFor) with
        cursors := cursors, digests := digests, divergences := divergences } := by
  induction changes generalizing db with
  | nil => rfl
  | cons change rest ih =>
    rw [List.map_cons, Db.staged_cons, Db.staged_cons, ← ih]
    congr 1
    unfold Engine.opFor Change.storeOp
    split
    · split <;> rfl
    · rfl
    · split <;> rfl

variable {device : Device} {batch first rest : Batch}

/-- An advance depends on no more of its batch and plan than this, and forgets where the
scope stood. -/
theorem Device.advance_congr {engine : Engine} {plan plan' : Plan} (state : ScopeState)
    (scope : rest.scope = batch.scope) (nextCursor : rest.nextCursor = batch.nextCursor)
    (digest : rest.digest = batch.digest) (planned : plan'.digest = plan.digest)
    (quarantined : plan'.quarantined = plan.quarantined)
    (escalated : plan'.escalated = plan.escalated) (heals : plan'.heals = plan.heals) :
    advance (engine.restoreScope batch.scope state) rest plan' = advance engine batch plan := by
  unfold advance
  rw [scope, nextCursor, digest, planned, quarantined, escalated, heals]
  simp only [Engine.restoreScope, Finmap.insert_insert]
  rfl

/-- Where the first piece of a cut leaves a device: its rows written, its scope moved to
its last change, nothing else touched. -/
def Device.reached (device : Device) (first : Batch) (early : Plan) : Device :=
  ⟨device.engine.restoreScope first.scope ⟨first.nextCursor, early.digest⟩,
    device.db.staged early.ops⟩

@[simp] theorem Device.reached_engine (device : Device) (first : Batch) (early : Plan) :
    (device.reached first early).engine =
      device.engine.restoreScope first.scope ⟨first.nextCursor, early.digest⟩ := rfl

@[simp] theorem Device.reached_db (device : Device) (first : Batch) (early : Plan) :
    (device.reached first early).db = device.db.staged early.ops := rfl

/-- Every change of a batch reaches this app's schema. -/
def Device.Lands (device : Device) (batch : Batch) : Prop :=
  ∀ change ∈ batch.changes, device.engine.lands change = true

section Cutting

variable [Hashing] {plan : Plan}

theorem Device.Plans.landed (plans : device.Plans batch compareDigest rebuilding plan)
    (lands : device.Lands batch) :
    plan.quarantined = [] ∧ (device.db.staged plan.ops).version =
      KeyedLog.replay device.db.version (batch.changes.map Change.entry) := by
  have all : batch.changes.filter device.engine.lands = batch.changes :=
    List.filter_eq_self.mpr lands
  have none : batch.changes.filter (!device.engine.lands ·) = [] := by
    apply List.filter_eq_nil_iff.mpr
    intro change member
    simp [lands change member]
  have reported := plans.quarantined
  rw [none] at reported
  refine ⟨List.map_eq_nil_iff.mp reported, ?_⟩
  rw [plans.version, all]

theorem Device.Plans.uncompared (plans : device.Plans first false false plan)
    (lands : device.Lands first) :
    ⟨advance device.engine first plan, device.db.staged plan.ops⟩ = device.reached first plan :=
  congrArg (Device.mk · _) (Device.advance_effects device.engine first plan
    (plans.landed lands).1 plans.record_uncompared)

/-- Planned in two pieces, a batch ends where it ends in one. -/
theorem Device.Plans.cut {early late : Plan} (cut : batch.CutInto first rest)
    (lands : device.Lands batch) (plans : device.Plans batch (!batch.hasMore) false plan)
    (start : device.Plans first false false early)
    (finish : (device.reached first early).Plans rest (!rest.hasMore) false late) :
    late.diverged = plan.diverged ∧
      advance (device.reached first early).engine rest late = advance device.engine batch plan ∧
      (device.reached first early).db.staged late.ops = device.db.staged plan.ops := by
  have inside : device.Lands first := by
    intro change member
    exact lands change (by rw [cut.changes]; exact List.mem_append_left _ member)
  have behind : device.Lands rest := by
    intro change member
    exact lands change (by rw [cut.changes]; exact List.mem_append_right _ member)
  obtain ⟨_, versions⟩ := start.landed inside
  have silent : late.quarantined = [] := (finish.landed behind).1
  have digest : late.digest = plan.digest := by
    let keys := (batch.changes.map Change.key).toFinset
    have all : ∀ change ∈ batch.changes, change.key ∈ keys := by
      intro change member
      exact List.mem_toFinset.mpr (List.mem_map_of_mem member)
    have whole := plans.balance keys all
    have one := start.balance keys fun change member =>
      all change (by rw [cut.changes]; exact List.mem_append_left _ member)
    have two := finish.balance keys fun change member =>
      all change (by rw [cut.changes]; exact List.mem_append_right _ member)
    have position : (device.reached first early).engine.scopeStateOr rest.scope = ⟨first.nextCursor, early.digest⟩ :=
      (device.engine.scopeStateOr_insert _ _ _).trans (if_pos (cut.scope'.trans cut.scope.symm))
    simp only [position, Device.reached_db, versions] at two
    rw [← KeyedLog.replay_append, ← List.map_append, ← cut.changes, one, cut.scope, ← whole] at two
    exact congrArg ScopeDigest.mk (sub_left_injective two)
  have health : (device.reached first early).engine.scopeHealth rest.scope = device.engine.scopeHealth batch.scope := by
    rw [cut.scope', Device.reached_engine, Engine.scopeHealth_restoreScope]
  have diverged : late.diverged = plan.diverged := by
    rw [finish.diverged, plans.diverged, digest, cut.digest, cut.hasMore']
  have escalated : late.escalated = plan.escalated := by
    rw [finish.escalated, plans.escalated, diverged, health]
  have heals : late.heals = plan.heals := by
    rw [finish.heals, plans.heals, diverged, health, cut.hasMore']
  refine ⟨diverged, ?_, ?_⟩
  · rw [Device.reached_engine, cut.scope]
    exact Device.advance_congr _ cut.scope' cut.nextCursor cut.digest digest
      (silent.trans (plans.landed lands).1.symm) escalated heals
  · have record : late.record = plan.record := by
      funext attempts
      rw [Plan.record, Plan.record, escalated, heals]
    have uncompared : ∀ attempts, early.record attempts = none := fun _ => start.record_uncompared
    rw [finish.staged, plans.staged]
    simp only [Device.reached_engine, Device.reached_db, start.staged, uncompared, Engine.staged_opFor_frame, Engine.opFor_restoreScope,
      Engine.scopeHealth_restoreScope, record, digest, cut.scope, cut.scope', cut.nextCursor,
      Finmap.insert_insert, cut.changes, List.map_append, Db.staged_append]

/-- What two applies in turn did. -/
def Applied.followed (one two : Applied) : Applied :=
  ⟨one.changes + two.changes, one.diverged || two.diverged⟩

theorem Device.applyChanges_planned (trusted : batch.scope ∉ device.engine.suspect)
    {compareDigest rebuilding : Bool} {applied : Applied} {after : Device} :
    device.applyChanges .none batch compareDigest rebuilding = (.ok applied, after) ↔
      ∃ plan, device.plan .none batch compareDigest rebuilding = .ok plan ∧
        applied = ⟨batch.changes.length, plan.diverged⟩ ∧
        after = ⟨advance device.engine batch plan, device.db.staged plan.ops⟩ := by
  rw [device.applyChanges_honest trusted]
  cases device.plan .none batch compareDigest rebuilding with
  | error e => simp
  | ok plan => simp [eq_comm]

/-- A batch is planned exactly if the two pieces of a cut are, one after the other. -/
theorem Device.plan_cut (cut : batch.CutInto first rest) (lands : device.Lands batch) :
    (∃ plan, device.plan .none batch (!batch.hasMore) false = .ok plan) ↔
      ∃ early late, device.plan .none first false false = .ok early ∧
        Device.plan .none (device.reached first early) rest (!rest.hasMore) false = .ok late := by
  have inside : device.Lands first := by
    intro change member
    exact lands change (by rw [cut.changes]; exact List.mem_append_left _ member)
  have onward : ∀ early, device.Plans first false false early →
      ((∃ late, Device.plan .none (device.reached first early) rest (!rest.hasMore) false =
          .ok late) ↔
        rest.Ordered first.nextCursor.get ∧ AppendsOnly device.engine.guard
          (KeyedLog.replay device.db.version (first.changes.map Change.entry)) rest.changes) := by
    intro early start
    have position : (device.reached first early).engine.scopeStateOr rest.scope = ⟨first.nextCursor, early.digest⟩ :=
      (device.engine.scopeStateOr_insert _ _ _).trans (if_pos (cut.scope'.trans cut.scope.symm))
    rw [Device.plan_ok_iff]
    simp only [position, Device.reached_db, (start.landed inside).2]
    rfl
  rw [Device.plan_ok_iff, cut.ordered_iff, cut.changes, appendsOnly_append]
  constructor
  · rintro ⟨⟨early, late⟩, appends, appends'⟩
    obtain ⟨plan, planned⟩ := (device.plan_ok_iff first false false).mpr
      ⟨by rwa [cut.scope], appends⟩
    obtain ⟨final, finished⟩ := (onward plan (device.plan_plans planned)).mpr ⟨late, appends'⟩
    exact ⟨plan, final, planned, finished⟩
  · rintro ⟨early, late, planned, finished⟩
    obtain ⟨ordered, appends⟩ := (device.plan_ok_iff first false false).mp ⟨early, planned⟩
    obtain ⟨ordered', appends'⟩ := (onward early (device.plan_plans planned)).mp ⟨late, finished⟩
    rw [cut.scope] at ordered
    exact ⟨⟨ordered, ordered'⟩, appends, appends'⟩

/-- Once the first piece of a cut is in, the rest meets a device that is ready for it. -/
theorem Batch.CutInto.onward (cut : batch.CutInto first rest)
    (trusted : batch.scope ∉ device.engine.suspect) (lands : device.Lands batch)
    {one : Applied} {middle : Device} (begun : device.applyBatch .none first = (.ok one, middle)) :
    rest.scope ∉ middle.engine.suspect ∧ middle.Lands rest := by
  rw [← cut.scope] at trusted
  unfold Device.applyBatch at begun
  obtain ⟨early, started, -, rfl⟩ := (Device.applyChanges_planned trusted).mp begun
  obtain ⟨reports, moved⟩ := Device.advance_alike first early
  rw [moved, cut.scope', ← cut.scope]
  refine ⟨trusted, ?_⟩
  intro change member
  exact lands change (by rw [cut.changes]; exact List.mem_append_right _ member)

/-- A batch is accepted exactly if the two pieces of a cut are, one after the other, and
then both ways end in the same device. -/
theorem Device.applyBatch_cut (trusted : batch.scope ∉ device.engine.suspect)
    (cut : batch.CutInto first rest) (lands : device.Lands batch) (applied : Applied)
    (after : Device) : device.applyBatch .none batch = (.ok applied, after) ↔
      ∃ one middle two, device.applyBatch .none first = (.ok one, middle) ∧
        middle.applyBatch .none rest = (.ok two, after) ∧ applied = one.followed two := by
  have trusted' : first.scope ∉ device.engine.suspect := by rwa [cut.scope]
  have inside : device.Lands first := by
    intro change member
    exact lands change (by rw [cut.changes]; exact List.mem_append_left _ member)
  have stays : ∀ early : Plan, rest.scope ∉ (device.reached first early).engine.suspect := by
    intro early
    rw [cut.scope']
    exact trusted
  have total : batch.changes.length = first.changes.length + rest.changes.length := by
    rw [cut.changes, List.length_append]
  unfold applyBatch
  rw [cut.hasMore, Device.applyChanges_planned trusted]
  constructor
  · rintro ⟨plan, planned, rfl, rfl⟩
    obtain ⟨early, late, started, finished⟩ := (device.plan_cut cut lands).mp ⟨plan, planned⟩
    have start := device.plan_plans started
    obtain ⟨diverged, advanced, stored⟩ :=
      (device.plan_plans planned).cut cut lands start (Device.plan_plans _ finished)
    refine ⟨⟨first.changes.length, early.diverged⟩, _, ⟨rest.changes.length, late.diverged⟩,
      (Device.applyChanges_planned trusted').mpr ⟨early, started, rfl, rfl⟩, ?_, ?_⟩
    · rw [start.uncompared inside]
      apply (Device.applyChanges_planned (stays early)).mpr
      exact ⟨late, finished, rfl, by rw [advanced, stored]⟩
    · rw [Applied.followed, total, diverged, start.diverged]
      rfl
  · rintro ⟨one, middle, two, begun, ended, rfl⟩
    obtain ⟨early, started, rfl, rfl⟩ := (Device.applyChanges_planned trusted').mp begun
    have start := device.plan_plans started
    rw [start.uncompared inside] at ended
    obtain ⟨late, finished, rfl, rfl⟩ := (Device.applyChanges_planned (stays early)).mp ended
    obtain ⟨plan, planned⟩ := (device.plan_cut cut lands).mpr ⟨early, late, started, finished⟩
    obtain ⟨diverged, advanced, stored⟩ :=
      (device.plan_plans planned).cut cut lands start (Device.plan_plans _ finished)
    refine ⟨plan, planned, ?_, ?_⟩
    · rw [Applied.followed, total, diverged, start.diverged]
      rfl
    · rw [advanced, stored]

/-- The pieces of a batch, applied one after the other as far as they are accepted, and
what they did together. -/
def Device.applyInTurn : Device → List Batch → Except ApplyError Applied × Device
  | device, [] => (.ok ⟨0, false⟩, device)
  | device, batch :: later =>
    match device.applyBatch .none batch with
    | (.error e, device) => (.error e, device)
    | (.ok one, device) =>
      match applyInTurn device later with
      | (.error e, device) => (.error e, device)
      | (.ok two, device) => (.ok (one.followed two), device)

theorem Device.applyInTurn_cons {later : List Batch} {applied : Applied} {after : Device} :
    device.applyInTurn (batch :: later) = (.ok applied, after) ↔
      ∃ one middle two, device.applyBatch .none batch = (.ok one, middle) ∧
        middle.applyInTurn later = (.ok two, after) ∧ applied = one.followed two := by
  rw [applyInTurn]
  cases first : device.applyBatch .none batch with
  | mk outcome middle =>
  cases outcome with
  | error e => simp
  | ok one =>
    simp only
    cases second : middle.applyInTurn later with
    | mk outcome final =>
    cases outcome with
    | error e => simp [second]
    | ok two => simp [second, eq_comm, and_comm]

theorem Device.applyBatch_refreshed (device : Device) (batch : Batch) :
    device.applyBatch .none batch = (device.refreshed batch.scope).applyBatch .none batch := by
  have readable : Faults.none.scopeState = none := rfl
  exact Device.applyChanges_refreshed readable device batch _ _

theorem Batch.Pieces.applyInTurn_refreshed {pieces : List Batch} (cut : batch.Pieces pieces)
    (device : Device) :
    device.applyInTurn pieces = (device.refreshed batch.scope).applyInTurn pieces := by
  cases cut with
  | whole =>
    rw [Device.applyInTurn, Device.applyInTurn, device.applyBatch_refreshed]
  | cut into =>
    rw [Device.applyInTurn, Device.applyInTurn, ← into.scope, device.applyBatch_refreshed]

theorem Device.applyInTurn_single {applied : Applied} {after : Device} :
    device.applyInTurn [batch] = (.ok applied, after) ↔
      device.applyBatch .none batch = (.ok applied, after) := by
  rw [Device.applyInTurn_cons]
  constructor
  · rintro ⟨one, middle, two, applies, rest, rfl⟩
    cases rest
    rw [applies, Applied.followed, Nat.add_zero, Bool.or_false]
  · intro applies
    refine ⟨applied, after, ⟨0, false⟩, applies, rfl, ?_⟩
    rw [Applied.followed, Nat.add_zero, Bool.or_false]

theorem Batch.Pieces.trusted {pieces : List Batch} (cut : batch.Pieces pieces)
    (trusted : batch.scope ∉ device.engine.suspect) (lands : device.Lands batch)
    (applied : Applied) (after : Device) :
    device.applyBatch .none batch = (.ok applied, after) ↔
      device.applyInTurn pieces = (.ok applied, after) := by
  induction cut generalizing device applied after with
  | whole => exact Device.applyInTurn_single.symm
  | cut into pieces ih =>
    rw [Device.applyBatch_cut trusted into lands, Device.applyInTurn_cons]
    constructor
    · rintro ⟨one, middle, two, begun, ended, same⟩
      obtain ⟨trusted, lands⟩ := into.onward trusted lands begun
      exact ⟨one, middle, two, begun, (ih trusted lands two after).mp ended, same⟩
    · rintro ⟨one, middle, two, begun, ended, same⟩
      obtain ⟨trusted, lands⟩ := into.onward trusted lands begun
      exact ⟨one, middle, two, begun, (ih trusted lands two after).mpr ended, same⟩

/-- Where a batch is cut does not matter. Whatever pieces it is cut into, honest storage
accepts it exactly if it accepts them one after the other; what they did and the device
they leave are then the same. -/
theorem cuts_do_not_matter (device : Device) (batch : Batch) (pieces : List Batch)
    (cut : batch.Pieces pieces) (lands : device.Lands batch) (applied : Applied) (after : Device) :
    device.applyBatch .none batch = (.ok applied, after) ↔
      device.applyInTurn pieces = (.ok applied, after) := by
  obtain ⟨scopes, suspect, made, -, -⟩ := device.refreshed_spec batch.scope
  rw [device.applyBatch_refreshed, cut.applyInTurn_refreshed]
  apply cut.trusted (device.refreshed_trusted batch.scope)
  rw [made]
  exact lands

end Cutting

namespace Sample

attribute [local instance] noteHashes

def bothNotes : Batch := { secondNote with changes := [noteA, noteB] }

theorem bothNotes_cut :
    let fresh := Device.restart notes Migrations.new [scope] {}
    (fresh.applyBatch .none bothNotes).1.isOk = true ∧
    fresh.applyInTurn [{ firstNote with hasMore := true }, secondNote] =
      fresh.applyBatch .none bothNotes := by
  intro fresh
  have cut : bothNotes.CutInto { firstNote with hasMore := true } secondNote := {
    changes := rfl
    present := List.cons_ne_nil _ _
    left := List.cons_ne_nil _ _
    scope := rfl
    scope' := rfl
    hasMore := rfl
    covers := by
      intro last member
      cases member
      rfl
    nextCursor := rfl
    hasMore' := rfl
    digest := rfl }
  have lands : fresh.Lands bothNotes := by
    intro change member
    rcases List.mem_pair.mp member with rfl | rfl <;> rfl
  have accepted : (fresh.applyBatch .none bothNotes).1.isOk = true := by rfl
  refine ⟨accepted, ?_⟩
  cases applies : fresh.applyBatch .none bothNotes with
  | mk outcome after =>
  cases outcome with
  | error e =>
    rw [applies] at accepted
    cases accepted
  | ok applied =>
    exact (cuts_do_not_matter fresh bothNotes _ (.cut cut (.whole _)) lands applied after).mp applies

end Sample

end CredSync
