import CredSync.Core.Registry
import CredSync.Protocol.Integrity

/-! Chains of single-step migrations. A document that moves through several
releases is the document that one upgrade over all of them makes. -/

namespace CredSync

/-- The step an error is about. -/
def MigrationError.step : MigrationError → Option (EntityName × Nat)
  | .noPath entity stuckAt _ => some (entity, stuckAt)
  | .failed entity old _ _ => some (entity, old)
  | .invalid .. | .backward .. => none

/-- The same error on the way to another version. -/
def MigrationError.toward (target : Nat) : MigrationError → MigrationError
  | .noPath entity stuckAt _ => .noPath entity stuckAt target
  | error => error

@[simp] theorem MigrationError.toward_step (error : MigrationError) (target : Nat) :
    (error.toward target).step = error.step := by
  cases error <;> rfl

namespace Migrations

/-- The loop of `plan`: `remaining` single steps from `version`. -/
def scan (migrations : Migrations) (entity : EntityName) (target : Nat) :
    Nat → Nat → Except MigrationError Unit
  | 0, _ => .ok ()
  | remaining + 1, version =>
    if (entity, version) ∈ migrations.steps then
      scan migrations entity target remaining (version + 1)
    else .error (.noPath entity version target)

/-- Checks that a chain exists without running it. -/
def plan (migrations : Migrations) (entity : EntityName) (old new : SchemaVersion) :
    Except MigrationError Unit :=
  if new.get < old.get then .error (.backward old.get new.get)
  else migrations.scan entity new.get (new.get - old.get) old.get

variable {migrations : Migrations} {entity : EntityName}

/-! ### The law of composition -/

theorem walk_add (target first second version : Nat) (current : Value) :
    migrations.walk entity target (first + second) version current =
      (migrations.walk entity target first version current).bind
        (migrations.walk entity target second (version + first)) := by
  induction first generalizing version current with
  | zero =>
    rw [Nat.zero_add]
    rfl
  | succ first ih =>
    rw [Nat.add_right_comm, walk, walk]
    cases migrations.steps.lookup (entity, version) with
    | none => rfl
    | some step =>
      simp only
      cases step current with
      | error reason => rfl
      | ok next =>
        simp only
        rw [ih, Nat.add_right_comm version 1 first]
        rfl

/-- The version a chain is on its way to shows in its errors only. -/
theorem walk_toward (target other remaining version : Nat) (current : Value) :
    migrations.walk entity target remaining version current =
      (migrations.walk entity other remaining version current).mapError
        (MigrationError.toward target) := by
  induction remaining generalizing version current with
  | zero => rfl
  | succ remaining ih =>
    rw [walk, walk]
    cases migrations.steps.lookup (entity, version) with
    | none => rfl
    | some step =>
      simp only
      cases step current with
      | error reason => rfl
      | ok next => exact ih (version + 1) next

/-- Forward, also over no distance at all, the loop is the whole migration. -/
theorem migrateValue_forward {old new : SchemaVersion} (forward : old.get ≤ new.get)
    (value : Value) : migrations.migrateValue entity value old new =
      migrations.walk entity new.get (new.get - old.get) old.get value := by
  rw [migrateValue, if_neg (Nat.not_lt.mpr forward)]
  split
  · rename_i same
    rw [same, Nat.sub_self]
    rfl
  · rfl

theorem migrateValue_compose {old mid new : SchemaVersion} (early : old.get ≤ mid.get)
    (late : mid.get ≤ new.get) (value : Value) :
    migrations.migrateValue entity value old new =
      ((migrations.migrateValue entity value old mid).mapError
        (MigrationError.toward new.get)).bind (migrations.migrateValue entity · mid new) := by
  have distance : new.get - old.get = (mid.get - old.get) + (new.get - mid.get) := by omega
  have arrival : old.get + (mid.get - old.get) = mid.get := by omega
  have onward : (migrations.migrateValue entity · mid new) =
      migrations.walk entity new.get (new.get - mid.get) mid.get :=
    funext fun between => migrateValue_forward late between
  rw [migrateValue_forward (early.trans late), distance, walk_add, arrival, onward,
    migrateValue_forward early, ← walk_toward]

theorem migrateValue_ok_iff {old mid new : SchemaVersion} (early : old.get ≤ mid.get)
    (late : mid.get ≤ new.get) (value final : Value) :
    migrations.migrateValue entity value old new = .ok final ↔
      ∃ between, migrations.migrateValue entity value old mid = .ok between ∧
        migrations.migrateValue entity between mid new = .ok final := by
  rw [migrateValue_compose early late]
  cases migrations.migrateValue entity value old mid with
  | error e =>
    constructor
    · intro impossible
      cases impossible
    · rintro ⟨between, impossible, _⟩
      cases impossible
  | ok between =>
    constructor
    · intro arrives
      exact ⟨between, rfl, arrives⟩
    · rintro ⟨other, same, arrives⟩
      cases same
      exact arrives

/-- An error on the whole way is that of the half it happens in. -/
theorem migrateValue_error {old mid new : SchemaVersion} (early : old.get ≤ mid.get)
    (late : mid.get ≤ new.get) {value : Value} {error : MigrationError}
    (failed : migrations.migrateValue entity value old new = .error error) :
    (∃ first, migrations.migrateValue entity value old mid = .error first ∧
      error = first.toward new.get) ∨
    ∃ between, migrations.migrateValue entity value old mid = .ok between ∧
      migrations.migrateValue entity between mid new = .error error := by
  rw [migrateValue_compose early late] at failed
  cases first : migrations.migrateValue entity value old mid with
  | error e =>
    rw [first] at failed
    cases failed
    exact .inl ⟨e, rfl, rfl⟩
  | ok between =>
    rw [first] at failed
    exact .inr ⟨between, rfl, failed⟩

/-- One upgrade after the other. -/
def migrateThrough (migrations : Migrations) (entity : EntityName) :
    Value → SchemaVersion → List SchemaVersion → Except MigrationError Value
  | value, _, [] => .ok value
  | value, old, release :: later =>
    (migrations.migrateValue entity value old release).bind
      (migrateThrough migrations entity · release later)

theorem migrateThrough_ok_iff (value final : Value) (old : SchemaVersion)
    (releases : List SchemaVersion)
    (ascending : (old :: releases).Pairwise fun earlier later => earlier.get ≤ later.get) :
    migrations.migrateThrough entity value old releases = .ok final ↔
      migrations.migrateValue entity value old (releases.getLastD old) = .ok final := by
  induction releases generalizing old value with
  | nil =>
    rw [List.getLastD_nil, migrateValue_forward (Nat.le_refl _), Nat.sub_self]
    rfl
  | cons release later ih =>
    obtain ⟨ahead, rest⟩ := List.pairwise_cons.mp ascending
    have early : old.get ≤ release.get := ahead release List.mem_cons_self
    have late : release.get ≤ (later.getLastD release).get := by
      cases later using List.reverseRecOn with
      | nil => simp
      | append_singleton front last =>
        rw [List.getLastD_concat]
        exact (List.pairwise_cons.mp rest).1 last (by simp)
    rw [List.getLastD_cons, migrateValue_ok_iff early late]
    unfold migrateThrough
    cases migrations.migrateValue entity value old release with
    | error e =>
      constructor
      · intro impossible
        cases impossible
      · rintro ⟨between, impossible, _⟩
        cases impossible
    | ok between =>
      constructor
      · intro arrives
        exact ⟨between, rfl, (ih between release rest).mp arrives⟩
      · rintro ⟨other, same, arrives⟩
        cases same
        exact (ih between release rest).mpr arrives

/-! ### What a plan promises -/

/-- A planned chain stops at nothing but a step that refuses its document. -/
theorem walk_of_scan {target remaining version : Nat}
    (planned : migrations.scan entity target remaining version = .ok ()) (current : Value)
    {error : MigrationError}
    (failed : migrations.walk entity target remaining version current = .error error) :
    ∃ at' reason, error = .failed entity at' (at' + 1) reason := by
  induction remaining generalizing version current with
  | zero => cases failed
  | succ remaining ih =>
    unfold scan at planned
    split at planned
    · rename_i present
      obtain ⟨step, found⟩ := Option.isSome_iff_exists.mp (Finmap.lookup_isSome.mpr present)
      rw [walk, found] at failed
      simp only at failed
      cases ran : step current with
      | error reason =>
        rw [ran] at failed
        cases failed
        exact ⟨version, reason, rfl⟩
      | ok next =>
        rw [ran] at failed
        exact ih planned next failed
    · cases planned

/-- A chain without a plan never arrives. -/
theorem walk_of_unplanned {target remaining version : Nat} {missing : MigrationError}
    (unplanned : migrations.scan entity target remaining version = .error missing)
    (current : Value) : ∃ error,
      migrations.walk entity target remaining version current = .error error := by
  induction remaining generalizing version current with
  | zero => cases unplanned
  | succ remaining ih =>
    unfold scan at unplanned
    unfold walk
    split at unplanned
    · cases migrations.steps.lookup (entity, version) with
      | none => exact ⟨_, rfl⟩
      | some step =>
        simp only
        cases step current with
        | error reason => exact ⟨_, rfl⟩
        | ok next => exact ih unplanned next
    · rename_i absent
      rw [Finmap.lookup_eq_none.mpr absent]
      exact ⟨_, rfl⟩

/-! ### In machine words -/

/-- A `u16` sum, unless it overflows. -/
def addU16 (a b : UInt16) : Option UInt16 :=
  if a.toNat + b.toNat < UInt16.size then some (a + b) else none

theorem addU16_toNat (sum : addU16 a b = some c) : c.toNat = a.toNat + b.toNat := by
  unfold addU16 at sum
  split at sum
  · rename_i fits
    cases sum
    rw [UInt16.toNat_add]
    exact Nat.mod_eq_of_lt fits
  · cases sum

theorem addU16_one (below : a < b) : ∃ c, addU16 a 1 = some c := by
  have fits : a.toNat + (1 : UInt16).toNat < UInt16.size := by
    have bound := b.toNat_lt
    have below := UInt16.lt_iff_toNat_lt.mp below
    change a.toNat + 1 < 65536
    omega
  exact ⟨a + 1, if_pos fits⟩

/-- The versions that `old..new` yields, unless counting them overflows. -/
def rangeU16 (old new : UInt16) : Option (List UInt16) :=
  if old < new then
    match _counted : addU16 old 1 with
    | none => none
    | some next => (rangeU16 next new).map (old :: ·)
  else some []
termination_by new.toNat - old.toNat
decreasing_by
  rename_i below
  have sum : next.toNat = old.toNat + 1 := addU16_toNat _counted
  have below := UInt16.lt_iff_toNat_lt.mp below
  omega

/-- The loop of `plan` over the versions of a range. -/
def scanWords (migrations : Migrations) (entity : EntityName) (target : UInt16) :
    List UInt16 → Except MigrationError Unit
  | [] => .ok ()
  | version :: rest =>
    if (entity, version.toNat) ∈ migrations.steps then scanWords migrations entity target rest
    else .error (.noPath entity version.toNat target.toNat)

/-- What a migration called, version by version, and what came of it. -/
structure Calls where
  called : List UInt16
  result : Except MigrationError Value

/-- The loop of `migrate_value` over the versions of a range. A step that refuses
its document is reported with the sum `version + 1`, which may overflow. -/
def walkWords (migrations : Migrations) (entity : EntityName) (target : UInt16) :
    List UInt16 → Value → Option Calls
  | [], current => some ⟨[], .ok current⟩
  | version :: rest, current =>
    match migrations.steps.lookup (entity, version.toNat) with
    | none => some ⟨[], .error (.noPath entity version.toNat target.toNat)⟩
    | some step =>
      match step current with
      | .error reason => (addU16 version 1).map fun next =>
          ⟨[version], .error (.failed entity version.toNat next.toNat reason)⟩
      | .ok current => (walkWords migrations entity target rest current).map fun calls =>
          { calls with called := version :: calls.called }

def planWords (migrations : Migrations) (entity : EntityName) (old new : UInt16) :
    Option (Except MigrationError Unit) :=
  if new < old then some (.error (.backward old.toNat new.toNat))
  else (rangeU16 old new).map (migrations.scanWords entity new)

def migrateWords (migrations : Migrations) (entity : EntityName) (value : Value)
    (old new : UInt16) : Option Calls :=
  if new < old then some ⟨[], .error (.backward old.toNat new.toNat)⟩
  else if new = old then some ⟨[], .ok value⟩
  else (rangeU16 old new).bind (migrations.walkWords entity new · value)

/-- A range never overflows, and yields each of its versions once, in ascending order. -/
theorem rangeU16_eq (old new : UInt16) : ∃ versions, rangeU16 old new = some versions ∧
    versions.map UInt16.toNat = List.range' old.toNat (new.toNat - old.toNat) ∧
    ∀ version ∈ versions, version < new := by
  induction old using rangeU16.induct new with
  | case1 old below overflowed =>
    obtain ⟨next, counted⟩ := addU16_one below
    rw [overflowed] at counted
    cases counted
  | case2 old below next counted ih =>
    obtain ⟨versions, yields, ascending, within⟩ := ih
    have sum : next.toNat = old.toNat + 1 := addU16_toNat counted
    have distance : new.toNat - old.toNat = (new.toNat - next.toNat) + 1 := by
      have := UInt16.lt_iff_toNat_lt.mp below
      omega
    refine ⟨old :: versions, ?_, ?_, ?_⟩
    · unfold rangeU16
      rw [if_pos below]
      split
      · rename_i overflowed
        rw [overflowed] at counted
        cases counted
      · rename_i other same
        rw [same] at counted
        cases counted
        rw [yields]
        rfl
    · rw [List.map_cons, ascending, distance, List.range'_succ, sum]
    · intro version member
      rcases List.mem_cons.mp member with rfl | member
      · exact below
      · exact within version member
  | case3 old reached =>
    have beyond : new.toNat - old.toNat = 0 := by
      have := mt UInt16.lt_iff_toNat_lt.mpr reached
      omega
    refine ⟨[], ?_, ?_, ?_⟩
    · unfold rangeU16
      exact if_neg reached
    · rw [beyond]
      rfl
    · exact List.forall_mem_nil _

theorem scanWords_eq {versions : List UInt16} {target : UInt16} {version remaining : Nat}
    (counts : versions.map UInt16.toNat = List.range' version remaining) :
    migrations.scanWords entity target versions =
      migrations.scan entity target.toNat remaining version := by
  induction versions generalizing version remaining with
  | nil =>
    cases remaining with
    | zero => rfl
    | succ remaining => cases counts
  | cons first rest ih =>
    cases remaining with
    | zero => cases counts
    | succ remaining =>
      rw [List.map_cons, List.range'_succ] at counts
      obtain ⟨same, later⟩ := List.cons.inj counts
      rw [scanWords, scan, same, ih later]

theorem walkWords_eq {versions : List UInt16} {target : UInt16} {version remaining : Nat}
    (counts : versions.map UInt16.toNat = List.range' version remaining)
    (within : ∀ version ∈ versions, version < target) (current : Value) :
    ∃ called, migrations.walkWords entity target versions current =
        some ⟨called, migrations.walk entity target.toNat remaining version current⟩ ∧
      called <+: versions ∧
      (∀ final, migrations.walk entity target.toNat remaining version current = .ok final →
        called = versions) := by
  induction versions generalizing version remaining current with
  | nil =>
    cases remaining with
    | zero => exact ⟨[], rfl, List.prefix_rfl, fun _ _ => rfl⟩
    | succ remaining => cases counts
  | cons first rest ih =>
    cases remaining with
    | zero => cases counts
    | succ remaining =>
      rw [List.map_cons, List.range'_succ] at counts
      obtain ⟨same, later⟩ := List.cons.inj counts
      rw [walkWords, walk, same]
      cases migrations.steps.lookup (entity, version) with
      | none =>
        refine ⟨[], rfl, List.nil_prefix, ?_⟩
        intro final impossible
        cases impossible
      | some step =>
        simp only
        cases step current with
        | error reason =>
          obtain ⟨next, sum⟩ := addU16_one (within first List.mem_cons_self)
          have named : next.toNat = first.toNat + 1 := addU16_toNat sum
          refine ⟨[first], ?_, ?_, ?_⟩
          · simp only [sum, Option.map_some, named, same]
          · exact List.prefix_cons_inj first |>.mpr List.nil_prefix
          · intro final impossible
            cases impossible
        | ok next =>
          obtain ⟨called, ran, begins, whole⟩ := ih later
            (fun version member => within version (List.mem_cons_of_mem _ member)) next
          refine ⟨first :: called, ?_, ?_, ?_⟩
          · simp only [ran, Option.map_some]
          · exact List.prefix_cons_inj first |>.mpr begins
          · intro final arrives
            rw [whole final arrives]

/-- A version as the machine word it is. -/
def word (version : SchemaVersion) : UInt16 := UInt16.ofNat version.get

theorem word_toNat (version : SchemaVersion) : (word version).toNat = version.get :=
  UInt16.toNat_ofNat_of_lt' (Nat.lt_succ_of_le version.upper)

theorem planWords_eq (old new : SchemaVersion) :
    migrations.planWords entity (word old) (word new) = some (migrations.plan entity old new) := by
  unfold planWords plan
  simp only [UInt16.lt_iff_toNat_lt, word_toNat]
  split
  · rfl
  · obtain ⟨versions, yields, counts, _⟩ := rangeU16_eq (word old) (word new)
    rw [word_toNat, word_toNat] at counts
    rw [yields, Option.map_some, scanWords_eq counts, word_toNat]

theorem migrateWords_eq (old new : SchemaVersion) (value : Value) :
    ∃ called, migrations.migrateWords entity value (word old) (word new) =
        some ⟨called, migrations.migrateValue entity value old new⟩ ∧
      called.map UInt16.toNat <+: List.range' old.get (new.get - old.get) ∧
      (∀ final, migrations.migrateValue entity value old new = .ok final →
        called.map UInt16.toNat = List.range' old.get (new.get - old.get)) := by
  unfold migrateWords migrateValue
  simp only [UInt16.lt_iff_toNat_lt, ← UInt16.toNat_inj, word_toNat]
  split
  · refine ⟨[], rfl, List.nil_prefix, ?_⟩
    intro final impossible
    cases impossible
  · split
    · rename_i same
      refine ⟨[], rfl, List.nil_prefix, ?_⟩
      intro final _
      rw [same, Nat.sub_self]
      rfl
    · obtain ⟨versions, yields, counts, within⟩ := rangeU16_eq (word old) (word new)
      rw [word_toNat, word_toNat] at counts
      obtain ⟨called, ran, begins, whole⟩ :=
        @walkWords_eq migrations entity _ _ _ _ counts within value
      rw [word_toNat] at ran whole
      refine ⟨called, ?_, ?_, ?_⟩
      · rw [yields]
        exact ran
      · rw [← counts]
        exact begins.map UInt16.toNat
      · intro final arrives
        rw [whole final arrives, counts]

/-! ### The chain as a whole -/

theorem walk_step {target remaining version : Nat} {current : Value} {error : MigrationError}
    (failed : migrations.walk entity target remaining version current = .error error) :
    error.step.isSome = true := by
  induction remaining generalizing version current with
  | zero => cases failed
  | succ remaining ih =>
    unfold walk at failed
    split at failed
    · cases failed
      rfl
    · split at failed
      · cases failed
        rfl
      · exact ih failed

/-- What chains of single steps promise of one entity. -/
structure Composes (migrations : Migrations) (entity : EntityName) : Prop where
  /-- Two halves succeed exactly if the whole does, with the same document. -/
  halves : ∀ (old mid new : SchemaVersion) (value : Value), old.get ≤ mid.get →
    mid.get ≤ new.get → ∀ final, migrations.migrateValue entity value old new = .ok final ↔
      ∃ between, migrations.migrateValue entity value old mid = .ok between ∧
        migrations.migrateValue entity between mid new = .ok final
  /-- A failure names the step that the first failing half names. -/
  failures : ∀ (old mid new : SchemaVersion) (value : Value), old.get ≤ mid.get →
    mid.get ≤ new.get → ∀ error, migrations.migrateValue entity value old new = .error error →
      error.step.isSome = true ∧
      ((∃ first, migrations.migrateValue entity value old mid = .error first ∧
          first.step = error.step) ∨
        ∃ between, migrations.migrateValue entity value old mid = .ok between ∧
          migrations.migrateValue entity between mid new = .error error)
  /-- After a plan, only a step that refuses its document stops a migration. -/
  planned : ∀ old new, migrations.plan entity old new = .ok () → ∀ value error,
    migrations.migrateValue entity value old new = .error error →
      ∃ version reason, error = .failed entity version (version + 1) reason
  /-- Without a plan, no document is migrated. -/
  unplanned : ∀ old new missing, migrations.plan entity old new = .error missing →
    ∀ value, ∃ error, migrations.migrateValue entity value old new = .error error
  /-- In machine words nothing overflows, and each step is called once, in order,
  up to the last one or to the one that fails. -/
  called : ∀ (old new : SchemaVersion) (value : Value), ∃ called,
    migrations.migrateWords entity value (word old) (word new) =
        some ⟨called, migrations.migrateValue entity value old new⟩ ∧
      called.map UInt16.toNat <+: List.range' old.get (new.get - old.get) ∧
      (∀ final, migrations.migrateValue entity value old new = .ok final →
        called.map UInt16.toNat = List.range' old.get (new.get - old.get))
  plans : ∀ old new, migrations.planWords entity (word old) (word new) =
    some (migrations.plan entity old new)
  /-- Any number of releases ends with the document of one upgrade. -/
  releases : ∀ (value final : Value) (old : SchemaVersion) (releases : List SchemaVersion),
    ((old :: releases).Pairwise fun earlier later => earlier.get ≤ later.get) →
    (migrations.migrateThrough entity value old releases = .ok final ↔
      migrations.migrateValue entity value old (releases.getLastD old) = .ok final)

/-- Every registered chain composes, whatever its steps do. -/
theorem migrations_compose (migrations : Migrations) (entity : EntityName) :
    migrations.Composes entity where
  halves _ _ _ value early late final := migrateValue_ok_iff early late value final
  failures old mid new value early late error failed := by
    constructor
    · rw [migrateValue_forward (early.trans late)] at failed
      exact walk_step failed
    · rcases migrateValue_error early late failed with ⟨first, stopped, rfl⟩ | second
      · left
        exact ⟨first, stopped, (first.toward_step new.get).symm⟩
      · exact .inr second
  planned old new planned value error failed := by
    unfold plan at planned
    split at planned
    · cases planned
    · rename_i forward
      rw [migrateValue_forward (Nat.le_of_not_lt forward)] at failed
      exact walk_of_scan planned value failed
  unplanned old new missing unplanned value := by
    unfold plan at unplanned
    split at unplanned
    · rename_i backward
      exact ⟨_, if_pos backward⟩
    · rename_i forward
      rw [migrateValue_forward (Nat.le_of_not_lt forward)]
      exact walk_of_unplanned unplanned value
  called := migrateWords_eq
  plans := planWords_eq
  releases := migrateThrough_ok_iff

end Migrations

namespace Sample

/-- Steps that wrap a note, from the first version and from the second. -/
def wrapping : Migrations :=
  let wrap : MigrationFn := fun value => .ok (.array [value])
  (Migrations.new.register note 1 wrap).register note 2 wrap

theorem wrapping_composes : ∃ between,
    wrapping.migrateValue note .null 1 2 = .ok between ∧
    wrapping.migrateValue note between 2 3 = .ok (.array [.array [.null]]) := by
  have whole : wrapping.migrateValue note .null 1 3 = .ok (.array [.array [.null]]) := by rfl
  have composes := Migrations.migrations_compose wrapping note
  exact (composes.halves 1 2 3 .null (by decide) (by decide) _).mp whole

end Sample

end CredSync
