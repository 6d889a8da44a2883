import CredSync.Core.ApplySpec

/-! Which batches honest storage accepts: the ordered ones whose upserts leave every
append-only row at the version it is at. -/

namespace CredSync

/-- A change overwrites no append-only row: an upsert finds it absent or at its own version. -/
def Change.Respects (change : Change) (cls : Option ConflictClass) (current : Option RowVersion) :
    Prop :=
  change.op = .upsert → cls = some .appendOnly → ∀ version ∈ current, version = change.rowVersion

/-- Changes in the order they are staged, each respecting what the earlier ones leave. -/
def AppendsOnly (guard : Change → Option ConflictClass) :
    KeyedLog.Holding RowKey RowVersion → List Change → Prop
  | _, [] => True
  | state, change :: rest => change.Respects (guard change) (state change.key) ∧
      AppendsOnly guard (KeyedLog.write state change.entry) rest

/-- The class a change is held to: none if it is set aside. -/
def Engine.guard (engine : Engine) (change : Change) : Option ConflictClass :=
  if engine.lands change then engine.registry.classOf change.entity else none

theorem appendOnlyConflict_none_iff {cls : Option ConflictClass} {current : Option RowVersion}
    {incoming : RowVersion} : appendOnlyConflict cls current incoming = none ↔
      (cls = some .appendOnly → ∀ version ∈ current, version = incoming) := by
  unfold appendOnlyConflict
  split
  · rename_i old
    by_cases same : old = incoming
    · simp [same]
    · simp [same]
  · rename_i apart
    simp only [true_iff]
    intro appendOnly version held
    exact absurd held (apart version appendOnly)

variable {guard : Change → Option ConflictClass} {changes : List Change}
  {state other : KeyedLog.Holding RowKey RowVersion}

/-! ### Appending to append-only rows -/

theorem Change.Respects.weaken {change : Change} {cls : Option ConflictClass}
    {current held : Option RowVersion} (respects : change.Respects cls current)
    (fewer : held = current ∨ held = none) : change.Respects cls held := by
  rcases fewer with rfl | rfl
  · exact respects
  · exact fun _ _ version impossible => nomatch impossible

theorem appendsOnly_append {first second : List Change} :
    AppendsOnly guard state (first ++ second) ↔ AppendsOnly guard state first ∧
      AppendsOnly guard (KeyedLog.replay state (first.map Change.entry)) second := by
  induction first generalizing state with
  | nil => simp [AppendsOnly]
  | cons change rest ih =>
    rw [List.cons_append, AppendsOnly, ih, AppendsOnly, and_assoc]
    rfl

theorem AppendsOnly.of_first {part : List Change} (appends : AppendsOnly guard state changes)
    (first : part <+: changes) : AppendsOnly guard state part := by
  obtain ⟨rest, rfl⟩ := first
  exact (appendsOnly_append.mp appends).1

theorem AppendsOnly.of_mutable (mutable : ∀ change ∈ changes, guard change ≠ some .appendOnly) :
    AppendsOnly guard state changes := by
  induction changes generalizing state with
  | nil => trivial
  | cons change rest ih =>
    refine ⟨fun _ appendOnly => absurd appendOnly (mutable change List.mem_cons_self), ?_⟩
    exact ih fun later member => mutable later (List.mem_cons_of_mem _ member)

/-- One that holds fewer rows has no more to overwrite. -/
theorem AppendsOnly.weaken (appends : AppendsOnly guard state changes)
    (fewer : ∀ key, other key = state key ∨ other key = none) : AppendsOnly guard other changes := by
  induction changes generalizing state other with
  | nil => trivial
  | cons change rest ih =>
    obtain ⟨respects, later⟩ := appends
    refine ⟨respects.weaken (fewer change.key), ih later fun key => ?_⟩
    by_cases here : key = change.entry.key
    · subst here
      rw [KeyedLog.write_same, KeyedLog.write_same]
      exact .inl rfl
    · rw [KeyedLog.write_other here, KeyedLog.write_other here]
      exact fewer key

theorem AppendsOnly.congr {guard' : Change → Option ConflictClass}
    (same : ∀ change ∈ changes, guard change = guard' change) :
    AppendsOnly guard state changes ↔ AppendsOnly guard' state changes := by
  induction changes generalizing state with
  | nil => exact Iff.rfl
  | cons change rest ih =>
    rw [AppendsOnly, AppendsOnly, same change List.mem_cons_self,
      ih fun later member => same later (List.mem_cons_of_mem _ member)]

/-- Changes of different rows are each held to what was there before them all. -/
theorem appendsOnly_iff_of_distinct
    (distinct : changes.Pairwise fun first second => first.key ≠ second.key) :
    AppendsOnly guard state changes ↔
      ∀ change ∈ changes, change.Respects (guard change) (state change.key) := by
  induction changes generalizing state with
  | nil => simp [AppendsOnly]
  | cons change rest ih =>
    obtain ⟨apart, others⟩ := List.pairwise_cons.mp distinct
    rw [AppendsOnly, ih others, List.forall_mem_cons]
    refine and_congr_right fun _ => forall₂_congr fun later member => ?_
    have elsewhere : later.key ≠ change.entry.key := (apart later member).symm
    rw [KeyedLog.write_other elsewhere]

/-- Whatever an ascending log last did to a row it upserted decides what is there. -/
private theorem exists_last {change : Change} (member : change ∈ changes)
    (ascending : KeyedLog.Ascending (fun change : Change => change.seq.get) changes) :
    ∃ last ∈ changes, last.key = change.key ∧ change.seq.get ≤ last.seq.get ∧
      KeyedLog.live (changes.map Change.entry) change.key = last.held := by
  have ordered : KeyedLog.Ascending KeyedLog.Entry.seq (changes.map Change.entry) :=
    List.pairwise_map.mpr ascending
  obtain ⟨_, latest, same⟩ := KeyedLog.exists_latest ordered (List.mem_map_of_mem member)
  have left := KeyedLog.live_latest ordered latest
  obtain ⟨inside, highest⟩ := latest
  obtain ⟨last, known, rfl⟩ := List.mem_map.mp inside
  rw [same] at left
  exact ⟨last, known, same, highest _ (List.mem_map_of_mem member) same.symm, left⟩

/-- The version a log that started from nothing wrote to an append-only row is the one it goes
on writing, until it deletes the row. -/
theorem AppendsOnly.kept {early late : Change} (appends : AppendsOnly guard (fun _ => none) changes)
    (ascending : KeyedLog.Ascending (fun change : Change => change.seq.get) changes)
    (member : early ∈ changes) (later : late ∈ changes) (row : late.key = early.key)
    (before : early.seq.get < late.seq.get) (created : early.op = .upsert) (written : late.op = .upsert)
    (appendOnly : ∀ change ∈ changes, change.key = early.key → guard change = some .appendOnly)
    (stays : ∀ removed ∈ changes, removed.key = early.key → early.seq.get < removed.seq.get →
      removed.seq.get < late.seq.get → removed.op ≠ .delete) :
    early.rowVersion = late.rowVersion := by
  induction changes using List.reverseRecOn generalizing late with
  | nil => cases member
  | append_singleton rest final ih =>
    obtain ⟨earlier, respects, _⟩ := appendsOnly_append.mp appends
    obtain ⟨ordered, _, below⟩ := KeyedLog.Ascending.append_iff.mp ascending
    have inner {change : Change} (inside : change ∈ rest) : change ∈ rest ++ [final] :=
      List.mem_append_left _ inside
    have below {change : Change} (inside : change ∈ rest) : change.seq.get < final.seq.get :=
      below change inside final List.mem_cons_self
    have upTo {late : Change} (inside : late ∈ rest) (row : late.key = early.key)
        (before : early.seq.get < late.seq.get) (written : late.op = .upsert)
        (stays : ∀ removed ∈ rest, removed.key = early.key → early.seq.get < removed.seq.get →
          removed.seq.get < late.seq.get → removed.op ≠ .delete) :
        early.rowVersion = late.rowVersion := by
      have first : early ∈ rest := by
        rcases List.mem_append.mp member with first | last
        · exact first
        · rw [List.mem_singleton.mp last] at before
          exact absurd (before.trans (below inside)) (lt_irrefl _)
      exact ih earlier ordered first inside row before written
        (fun change known => appendOnly change (inner known)) stays
    rcases List.mem_append.mp later with inside | final'
    · exact upTo inside row before written fun removed known => stays removed (inner known)
    · have final' := List.mem_singleton.mp final'
      subst final'
      have first : early ∈ rest := by
        rcases List.mem_append.mp member with first | last
        · exact first
        · rw [List.mem_singleton.mp last] at before
          exact absurd before (lt_irrefl _)
      obtain ⟨last, known, same, reached, left⟩ := exists_last first ordered
      have upserted : last.op = .upsert := by
        cases op : last.op with
        | upsert => rfl
        | delete =>
          have apart : early ≠ last := fun equal => by
            rw [← equal, created] at op
            cases op
          have strictly := Nat.lt_of_le_of_ne reached fun equal =>
            apart (ordered.unique first known equal)
          exact absurd op (stays last (inner known) same strictly (below known))
      have agrees : last.rowVersion = late.rowVersion := by
        refine respects written (appendOnly late (by simp) row) last.rowVersion ?_
        change KeyedLog.live (rest.map Change.entry) late.key = some last.rowVersion
        rw [row, left, Change.held, upserted]
      rcases Nat.lt_or_eq_of_le reached with strictly | equal
      · rw [← agrees]
        exact upTo known same strictly upserted fun removed inside row' above under =>
          stays removed (inner inside) row' above (under.trans (below known))
      · rw [ordered.unique first known equal]
        exact agrees

/-! ### What honest storage accepts -/

section Staging

variable [Hashing] {change : Change} {cls : Option ConflictClass} {db : Db} {staging : Staging}

omit [Hashing] in
/-- Honest storage always answers what version a row is at. -/
theorem Staging.current_honest (staging : Staging) (db : Db) (key : RowKey) :
    staging.current .none db key = .ok (staging.view db key) := by
  unfold current view
  cases staging.staged.lookup key <;> rfl

theorem stageChange_ok_iff (valid : change.validate = .ok ()) :
    (∃ next, stageChange .none db change cls staging = .ok next) ↔
      change.Respects cls (staging.view db change.key) := by
  unfold stageChange Change.Respects
  rw [staging.current_honest]
  cases op : change.op with
  | delete => simp
  | upsert =>
    cases carried : change.snapshot with
    | none => simp [Change.validate, op, carried] at valid
    | some snapshot =>
      rw [← appendOnlyConflict_none_iff]
      cases conflict : appendOnlyConflict cls (staging.view db change.key) change.rowVersion <;>
        simp [conflict]

/-- A change that is set aside is held to no class, and always accepted. -/
theorem Device.stageOne_ok_iff (device : Device) (staging : Staging)
    (valid : change.validate = .ok ()) :
    (∃ next, device.stageOne .none staging change = .ok next) ↔
      change.Respects (device.engine.guard change) (staging.view device.db change.key) := by
  unfold stageOne Engine.guard Engine.lands
  cases found : device.engine.migratedChange change with
  | ok migrated =>
    have landed : device.engine.landing change = .ok (migrated.getD change) := by
      rw [Engine.landing, found]
      rfl
    obtain ⟨key, _, op, version, stillValid⟩ := device.engine.landing_ok landed valid
    have staged : (∃ next, stageChange .none device.db (migrated.getD change)
        (device.engine.registry.classOf change.entity) staging = .ok next) ↔ _ :=
      stageChange_ok_iff stillValid
    rw [Change.Respects, key, op, version] at staged
    rw [landed]
    cases migrated with
    | none => exact staged
    | some result => exact staged
  | error e =>
    have failed : device.engine.landing change = .error e := by
      rw [Engine.landing, found]
      rfl
    obtain ⟨snapshot, carried⟩ :=
      Option.isSome_iff_exists.mp (device.engine.migratedChange_error found)
    unfold stageQuarantine
    simp [staging.current_honest, carried, failed, Change.Respects, Except.isOk, Except.toBool]

theorem Device.stageAll_ok_iff (device : Device) (staging : Staging)
    (valid : ∀ change ∈ changes, change.validate = .ok ()) :
    (∃ final, changes.foldlM (device.stageOne .none) staging = .ok final) ↔
      AppendsOnly device.engine.guard (staging.view device.db) changes := by
  induction changes generalizing staging with
  | nil => exact ⟨fun _ => trivial, fun _ => ⟨staging, rfl⟩⟩
  | cons change rest ih =>
    have head := valid change List.mem_cons_self
    have first := device.stageOne_ok_iff staging head
    rw [AppendsOnly, ← first, List.foldlM_cons]
    cases staged : device.stageOne .none staging change with
    | error e =>
      constructor
      · rintro ⟨_, impossible⟩
        cases impossible
      · rintro ⟨⟨_, impossible⟩, _⟩
        cases impossible
    | ok next =>
      have others := ih next fun later member => valid later (List.mem_cons_of_mem _ member)
      rw [(device.stageOne_stages head staged).view] at others
      rw [← others]
      simp only [Except.ok.injEq, exists_eq', true_and]
      rfl

/-- Honest storage plans exactly the ordered batches that leave append-only rows alone. -/
theorem Device.plan_ok_iff (device : Device) (batch : Batch) (compareDigest rebuilding : Bool) :
    (∃ plan, device.plan .none batch compareDigest rebuilding = .ok plan) ↔
      batch.Ordered (device.engine.scopeStateOr batch.scope).cursor.get ∧
        AppendsOnly device.engine.guard device.db.version batch.changes := by
  rw [← validateOrdering_ok_iff]
  unfold plan
  cases accepted : validateOrdering batch (device.engine.scopeStateOr batch.scope).cursor.get with
  | error e => simp [accepted]
  | ok =>
    have ordered := (validateOrdering_ok_iff batch _).mp accepted
    have staged := device.stageAll_ok_iff
      { digest := (device.engine.scopeStateOr batch.scope).digest } ordered.valid
    change _ ↔ AppendsOnly device.engine.guard device.db.version batch.changes at staged
    rw [← staged]
    simp only [accepted, true_and]
    cases batch.changes.foldlM (device.stageOne .none)
      { digest := (device.engine.scopeStateOr batch.scope).digest } <;> simp

/-- Over honest storage a batch of a trusted scope is refused, or commits its plan. -/
theorem Device.applyChanges_ok_iff (device : Device) {batch : Batch}
    (trusted : batch.scope ∉ device.engine.suspect) (compareDigest rebuilding : Bool) :
    (device.applyChanges .none batch compareDigest rebuilding).1.isOk = true ↔
      batch.Ordered (device.engine.scopeStateOr batch.scope).cursor.get ∧
        AppendsOnly device.engine.guard device.db.version batch.changes := by
  rw [← device.plan_ok_iff batch compareDigest rebuilding, device.applyChanges_honest trusted]
  cases device.plan .none batch compareDigest rebuilding <;> simp [Except.isOk, Except.toBool]

/-- What is accepted is committed. -/
theorem Device.applyChanges_commits (device : Device) {batch : Batch}
    (trusted : batch.scope ∉ device.engine.suspect) {compareDigest rebuilding : Bool}
    (accepted : (device.applyChanges .none batch compareDigest rebuilding).1.isOk = true) :
    ∃ plan applied, device.Plans batch compareDigest rebuilding plan ∧
      device.applyChanges .none batch compareDigest rebuilding =
        (.ok applied, ⟨advance device.engine batch plan, device.db.staged plan.ops⟩) := by
  rw [device.applyChanges_honest trusted] at accepted ⊢
  cases planned : device.plan .none batch compareDigest rebuilding with
  | error e =>
    rw [planned] at accepted
    cases accepted
  | ok plan => exact ⟨plan, _, device.plan_plans planned, rfl⟩

end Staging

end CredSync
