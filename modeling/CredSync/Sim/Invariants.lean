import CredSync.Core.Storage
import CredSync.Library.Monitor
import Mathlib.Data.Finset.Sort
import Mathlib.Data.List.Lex

/-! The claims the simulator checks after every step, and the short memory it checks them
from: a number, a map of verdicts and a set of identifiers for each device. -/

namespace CredSync

/-- Identifiers are ordered as their bytes, the first difference deciding. -/
instance : LinearOrder CommandId :=
  LinearOrder.lift' (fun id => id.bytes.toList.map UInt8.toNat) fun a b same => by
    have bytes := List.map_injective_iff.mpr (fun _ _ => UInt8.toNat_inj.mp) same
    cases a
    cases b
    cases Vector.toList_inj.mp bytes
    rfl

instance : ToString CommandId := ⟨fun id => asText id.display⟩

namespace Sim

/-- An invariant that did not hold. -/
structure Violation where
  invariant : String
  /-- The device it failed on; none for a claim about the world. -/
  device : Option Nat
  detail : String
  atMs : Int
  deriving DecidableEq

instance : ToString Violation where
  toString violation :=
    match violation.device with
    | some d => s!"[{violation.invariant}] device {d} at {violation.atMs}ms: {violation.detail}"
    | none => s!"[{violation.invariant}] at {violation.atMs}ms: {violation.detail}"

/-- A resolution without its reason. -/
inductive Verdict where
  | applied
  | superseded
  | deadLettered
  deriving DecidableEq

namespace Verdict

def of : Resolution → Verdict
  | .applied _ => applied
  | .superseded => superseded
  | .deadLettered _ => deadLettered

def name : Verdict → String
  | applied => "applied"
  | superseded => "superseded"
  | deadLettered => "dead-lettered"

end Verdict

/-- What the checker remembers between steps. -/
structure Invariants where
  /-- The highest cursor each device has reached. -/
  highWater : Table (Nat × ScopeId) Nat := ∅
  /-- Commands each device has seen resolved, and how. -/
  resolved : Table Nat (Table CommandId Verdict) := ∅
  /-- Commands each device has ever had queued. -/
  everQueued : Table Nat (Finset CommandId) := ∅
  violations : List Violation := []

namespace Invariants

def holds (checker : Invariants) : Bool := checker.violations.isEmpty

/-- A cursor never moves backwards, and never vanishes. -/
def checkCursorMonotonic (checker : Invariants) (atMs : Int) (device : Nat) (db : Db)
    (scope : ScopeId) : Invariants :=
  match db.cursors.lookup scope with
  | none =>
    match checker.highWater.lookup (device, scope) with
    | some was =>
      { checker with
        violations := checker.violations ++ [⟨"cursor-monotonicity", some device,
          s!"cursor reached {was} and then vanished from storage", atMs⟩]
        highWater := Finmap.erase (device, scope) checker.highWater }
    | none => checker
  | some cursor =>
    let now := cursor.get
    let high := (checker.highWater.lookup (device, scope)).getD 0
    { checker with
      violations := checker.violations ++
        if now < high then [⟨"cursor-monotonicity", some device,
          s!"cursor moved backwards, {high} -> {now}", atMs⟩] else []
      highWater := checker.highWater.insert (device, scope) (max high now) }

/-- One resolution of the log: a repeat is a violation, whatever its verdict. -/
def recordOnce (atMs : Int) (device : Nat) (state : Table CommandId Verdict × List Violation)
    (entry : CommandId × Resolution) : Table CommandId Verdict × List Violation :=
  let verdict := Verdict.of entry.2
  (state.1.insert entry.1 verdict,
    match state.1.lookup entry.1 with
    | none => state.2
    | some prior => state.2 ++ [⟨"idempotency", some device,
        if prior = verdict then
          s!"command {entry.1} recorded twice with the same verdict, {verdict.name}"
        else
          s!"command {entry.1} recorded twice with different verdicts, {prior.name} then " ++
            verdict.name, atMs⟩])

/-- One verdict of this state against those seen before it. -/
def compareVerdict (atMs : Int) (device : Nat) (state : Table CommandId Verdict × List Violation)
    (entry : CommandId × Verdict) : Table CommandId Verdict × List Violation :=
  match state.1.lookup entry.1 with
  | none => (state.1.insert entry.1 entry.2, state.2)
  | some prior =>
    if prior ≠ entry.2 then
      (state.1, state.2 ++ [⟨"idempotency", some device,
        s!"command {entry.1} changed verdict across steps, {prior.name} -> {entry.2.name}", atMs⟩])
    else state

/-- The keys of a map in order, as a `BTreeMap` iterates them. -/
def inOrder (ids : Finset CommandId) : List CommandId := ids.sort (· ≤ ·)

def entriesInOrder (verdicts : Table CommandId Verdict) : List (CommandId × Verdict) :=
  (inOrder verdicts.keys).filterMap fun id => (verdicts.lookup id).map (id, ·)

/-- A resolution never vanishes, and its verdict never changes. -/
def checkDurabilityAndIdempotency (checker : Invariants) (atMs : Int) (device : Nat) (db : Db) :
    Invariants :=
  let seen := (checker.resolved.lookup device).getD ∅
  let (thisRun, repeated) := db.resolved.foldl (recordOnce atMs device) (∅, [])
  let (seen, changed) := (entriesInOrder thisRun).foldl (compareVerdict atMs device) (seen, [])
  let lost := (inOrder seen.keys).filter (· ∉ thisRun)
  -- A loss is forgotten with its report, so that it is reported once.
  { checker with
    resolved := checker.resolved.insert device (lost.foldl (fun seen id => Finmap.erase id seen) seen)
    violations := checker.violations ++ repeated ++ changed ++ lost.map fun id =>
      ⟨"durability", some device, s!"command {id} was resolved and is no longer recorded", atMs⟩ }

/-- An outbox entry leaves only into a recorded outcome. -/
def checkNoLoss (checker : Invariants) (atMs : Int) (device : Nat) (db : Db) : Invariants :=
  let queued := (db.outbox.map OutboxEntry.id).toFinset
  let resolved := (db.resolved.map Prod.fst).toFinset
  let ever := (checker.everQueued.lookup device).getD ∅ ∪ queued
  let vanished := (inOrder ever).filter fun id => id ∉ queued ∧ id ∉ resolved
  { checker with
    everQueued := checker.everQueued.insert device (vanished.foldl (fun ever id => ever.erase id) ever)
    violations := checker.violations ++
      (inOrder (queued ∩ resolved)).map (fun id =>
        ⟨"no-loss", some device, s!"command {id} is both queued and resolved", atMs⟩) ++
      vanished.map fun id => ⟨"no-loss", some device,
        s!"command {id} left the outbox with no recorded outcome — silently lost", atMs⟩ }

/-- The three checks of one device. -/
def checkDevice (scope : ScopeId) (checker : Invariants) (observed : Nat × Int × Db) : Invariants :=
  let (device, atMs, db) := observed
  ((checker.checkCursorMonotonic atMs device db scope).checkDurabilityAndIdempotency atMs device
    db).checkNoLoss atMs device db

/-- Every claim, on every device, against the world as it stands. -/
def checkStep (scope : ScopeId) (checker : Invariants) (atMs : Int) (databases : List Db) :
    Invariants :=
  databases.zipIdx.foldl (fun checker entry => checker.checkDevice scope (entry.2, atMs, entry.1))
    checker

/-! ### What one device's states should satisfy -/

/-- A cursor that was there is still there, and no lower. -/
def CursorStays (scope : ScopeId) (earlier later : Db) : Prop :=
  ∀ was, earlier.cursors.lookup scope = some was →
    ∃ now, later.cursors.lookup scope = some now ∧ was.get ≤ now.get

/-- What was resolved is resolved, with the same kind of verdict. -/
def VerdictsStay (earlier later : Db) : Prop :=
  ∀ id resolution, (id, resolution) ∈ earlier.resolved →
    ∃ resolution', (id, resolution') ∈ later.resolved ∧ Verdict.of resolution' = Verdict.of resolution

/-- Identifiers queued, and identifiers resolved. -/
def queued (db : Db) : List CommandId := db.outbox.map OutboxEntry.id
def settled (db : Db) : List CommandId := db.resolved.map Prod.fst

def Unlost (earlier later : Db) : Prop := ∀ id ∈ queued earlier, id ∈ queued later ∨ id ∈ settled later

def Apart (db : Db) : Prop := ∀ id ∈ queued db, id ∉ settled db

/-- The states of one device, one after another, keep every promise. -/
structure Kept (scope : ScopeId) (history : List Db) : Prop where
  cursor : history.Pairwise (CursorStays scope)
  once : ∀ db ∈ history, (settled db).Nodup
  durable : history.Pairwise VerdictsStay
  apart : ∀ db ∈ history, Apart db
  unlost : history.Pairwise Unlost

/-! ### The cursor -/

/-- What the high-water mark says about the states so far. -/
structure MarksHighest (scope : ScopeId) (high : Option Nat) (history : List Db) : Prop where
  unseen : high = none ↔ ∀ db ∈ history, db.cursors.lookup scope = none
  bound : ∀ now, high.getD 0 ≤ now ↔
    ∀ db ∈ history, ∀ was, db.cursors.lookup scope = some was → was.get ≤ now

section Cursor

variable {scope : ScopeId} {checker : Invariants} {atMs : Int} {device : Nat} {db : Db}
  {history : List Db}

variable (atMs db) in
theorem checkCursorMonotonic_violations
    (marks : MarksHighest scope (checker.highWater.lookup (device, scope)) history) :
    (checker.checkCursorMonotonic atMs device db scope).violations = [] ↔
      checker.violations = [] ∧ ∀ earlier ∈ history, CursorStays scope earlier db := by
  unfold checkCursorMonotonic
  cases cursor : db.cursors.lookup scope with
  | none =>
    have vanished : (∀ earlier ∈ history, CursorStays scope earlier db) ↔
        ∀ earlier ∈ history, earlier.cursors.lookup scope = none := by
      simp only [CursorStays, cursor, reduceCtorEq, false_and, exists_false, imp_false,
        Option.eq_none_iff_forall_ne_some, ne_eq]
    rw [vanished, ← marks.unseen]
    cases high : checker.highWater.lookup (device, scope) with
    | none => simp
    | some was => simp
  | some now =>
    have lowered : (∀ earlier ∈ history, CursorStays scope earlier db) ↔
        (checker.highWater.lookup (device, scope)).getD 0 ≤ now.get := by
      rw [marks.bound]
      simp [CursorStays, cursor]
    rw [lowered]
    simp

theorem checkCursorMonotonic_marks
    (marks : MarksHighest scope (checker.highWater.lookup (device, scope)) history)
    (stays : ∀ earlier ∈ history, CursorStays scope earlier db) :
    MarksHighest scope ((checker.checkCursorMonotonic atMs device db scope).highWater.lookup
      (device, scope)) (history ++ [db]) := by
  unfold checkCursorMonotonic
  cases cursor : db.cursors.lookup scope with
  | none =>
    have gone : ∀ earlier ∈ history, earlier.cursors.lookup scope = none := by
      intro earlier member
      apply Option.eq_none_iff_forall_ne_some.mpr
      intro was found
      obtain ⟨now, present, _⟩ := stays earlier member was found
      rw [cursor] at present
      cases present
    have high := marks.unseen.mpr gone
    simp only [high]
    constructor
    · apply iff_of_true rfl
      intro earlier member
      rcases List.mem_append.mp member with before | last
      · exact gone earlier before
      · rw [List.mem_singleton.mp last, cursor]
    · intro now
      have before := marks.bound now
      rw [high] at before
      rw [before, List.forall_mem_append, List.forall_mem_singleton]
      apply (and_iff_left _).symm
      intro was found
      rw [cursor] at found
      cases found
  | some now =>
    simp only [Finmap.lookup_insert]
    constructor
    · apply iff_of_false (Option.some_ne_none _)
      intro gone
      have last := gone db (List.mem_append_right history List.mem_cons_self)
      rw [cursor] at last
      cases last
    · intro bound
      rw [Option.getD_some, Nat.max_le, marks.bound, List.forall_mem_append,
        List.forall_mem_singleton, cursor]
      simp only [Option.some.injEq, forall_eq']

end Cursor

/-! ### The verdicts -/

/-- What the verdicts seen say about the states so far. -/
def Recalls (seen : Table CommandId Verdict) (history : List Db) : Prop :=
  ∀ id verdict, seen.lookup id = some verdict ↔
    ∃ db ∈ history, ∃ resolution, (id, resolution) ∈ db.resolved ∧ Verdict.of resolution = verdict

section Verdicts

variable {atMs : Int} {device : Nat}

/-- The pass over one log. -/
def recorded (atMs : Int) (device : Nat) (log : List (CommandId × Resolution)) :
    Table CommandId Verdict × List Violation := log.foldl (recordOnce atMs device) (∅, [])

theorem recorded_concat (log : List (CommandId × Resolution)) (entry : CommandId × Resolution) :
    recorded atMs device (log ++ [entry]) = recordOnce atMs device (recorded atMs device log) entry :=
  List.foldl_concat ..

variable (atMs device) in
theorem recorded_mem (log : List (CommandId × Resolution)) (id : CommandId) :
    id ∈ (recorded atMs device log).1 ↔ id ∈ log.map Prod.fst := by
  induction log using List.reverseRecOn with
  | nil => exact iff_of_false (Finmap.notMem_empty) List.not_mem_nil
  | append_singleton log entry ih =>
    rw [recorded_concat, recordOnce, Finmap.mem_insert, ih, List.map_append, List.mem_append,
      List.map_singleton, List.mem_singleton, or_comm]

/-- It is silent when no identifier repeats. -/
theorem recorded_silent (log : List (CommandId × Resolution)) :
    (recorded atMs device log).2 = [] ↔ (log.map Prod.fst).Nodup := by
  induction log using List.reverseRecOn with
  | nil => exact iff_of_true rfl .nil
  | append_singleton log entry ih =>
    have repeats := recorded_mem atMs device log entry.1
    rw [recorded_concat, List.map_append, List.map_singleton, List.nodup_append_comm,
      List.singleton_append, List.nodup_cons, ← ih, ← repeats, recordOnce]
    cases found : (recorded atMs device log).1.lookup entry.1 with
    | none => simp only [Finmap.lookup_eq_none.mp found, not_false_eq_true, true_and]
    | some prior =>
      have held : entry.1 ∈ (recorded atMs device log).1 := Finmap.mem_of_lookup_eq_some found
      simp [held]

variable (atMs device) in
/-- And then it maps each identifier to its verdict. -/
theorem recorded_lookup {log : List (CommandId × Resolution)} (once : (log.map Prod.fst).Nodup)
    (id : CommandId) (verdict : Verdict) :
    (recorded atMs device log).1.lookup id = some verdict ↔
      ∃ resolution, (id, resolution) ∈ log ∧ Verdict.of resolution = verdict := by
  induction log using List.reverseRecOn with
  | nil => simp [recorded]
  | append_singleton log entry ih =>
    rw [List.map_append, List.map_singleton, List.nodup_append_comm, List.singleton_append,
      List.nodup_cons] at once
    rw [recorded_concat, recordOnce, Table.lookup_insert_if]
    split
    · rename_i same
      subst same
      constructor
      · intro judged
        exact ⟨entry.2, List.mem_append_right log List.mem_cons_self, Option.some.inj judged⟩
      · rintro ⟨resolution, member, judged⟩
        rcases List.mem_append.mp member with before | last
        · exact absurd (List.mem_map.mpr ⟨_, before, rfl⟩) once.1
        · rw [← judged, ← List.mem_singleton.mp last]
    · rename_i different
      rw [ih once.2]
      apply exists_congr
      intro resolution
      rw [List.mem_append, List.mem_singleton, or_iff_left]
      intro last
      exact different (congrArg Prod.fst last)

theorem compareVerdict_other (seen : Table CommandId Verdict) (violations : List Violation)
    (entry : CommandId × Verdict) {id : CommandId} (different : id ≠ entry.1) :
    (compareVerdict atMs device (seen, violations) entry).1.lookup id = seen.lookup id := by
  unfold compareVerdict
  cases seen.lookup entry.1 with
  | none => exact Finmap.lookup_insert_of_ne _ different
  | some prior =>
    simp only
    split <;> rfl

theorem compareVerdict_same (seen : Table CommandId Verdict) (violations : List Violation)
    (entry : CommandId × Verdict) :
    (compareVerdict atMs device (seen, violations) entry).1.lookup entry.1 =
      some ((seen.lookup entry.1).getD entry.2) := by
  unfold compareVerdict
  cases found : seen.lookup entry.1 with
  | none => exact Finmap.lookup_insert _
  | some prior =>
    simp only
    split <;> exact found

/-- The comparison of distinct identifiers with the verdicts seen before them. -/
theorem compareVerdict_silent {entries : List (CommandId × Verdict)}
    (distinct : (entries.map Prod.fst).Nodup) (seen : Table CommandId Verdict)
    (violations : List Violation) :
    (entries.foldl (compareVerdict atMs device) (seen, violations)).2 = [] ↔
      violations = [] ∧ ∀ entry ∈ entries, ∀ prior, seen.lookup entry.1 = some prior →
        prior = entry.2 := by
  induction entries generalizing seen violations with
  | nil => simp
  | cons entry rest ih =>
    rw [List.map_cons, List.nodup_cons] at distinct
    have head : (compareVerdict atMs device (seen, violations) entry).2 = [] ↔
        violations = [] ∧ ∀ prior, seen.lookup entry.1 = some prior → prior = entry.2 := by
      unfold compareVerdict
      cases seen.lookup entry.1 with
      | none => simp
      | some prior =>
        by_cases agree : prior = entry.2 <;> simp [agree]
    have tail : (∀ other ∈ rest, ∀ prior,
        (compareVerdict atMs device (seen, violations) entry).1.lookup other.1 = some prior →
          prior = other.2) ↔
        ∀ other ∈ rest, ∀ prior, seen.lookup other.1 = some prior → prior = other.2 := by
      apply forall₂_congr
      intro other member
      rw [compareVerdict_other seen violations entry]
      intro same
      exact distinct.1 (same ▸ List.mem_map_of_mem member)
    rw [List.foldl_cons, ih distinct.2, head, tail, List.forall_mem_cons, and_assoc]

/-- It adds the verdicts not seen before, and changes none. -/
theorem compareVerdict_lookup {entries : List (CommandId × Verdict)}
    (distinct : (entries.map Prod.fst).Nodup) (seen : Table CommandId Verdict)
    (violations : List Violation) (id : CommandId) (verdict : Verdict) :
    (entries.foldl (compareVerdict atMs device) (seen, violations)).1.lookup id = some verdict ↔
      seen.lookup id = some verdict ∨ seen.lookup id = none ∧ (id, verdict) ∈ entries := by
  induction entries generalizing seen violations with
  | nil => simp
  | cons entry rest ih =>
    rw [List.map_cons, List.nodup_cons] at distinct
    rw [List.foldl_cons, ih distinct.2]
    by_cases same : id = entry.1
    · subst same
      have absent : (entry.1, verdict) ∉ rest :=
        fun member => distinct.1 (List.mem_map.mpr ⟨_, member, rfl⟩)
      rw [compareVerdict_same, List.mem_cons]
      cases seen.lookup entry.1 with
      | none =>
        simp [absent, Prod.ext_iff, eq_comm]
      | some prior => simp
    · have other : (id, verdict) ≠ entry := fun equal => same (congrArg Prod.fst equal)
      rw [compareVerdict_other seen violations entry same, List.mem_cons, or_iff_right other]

theorem mem_inOrder (ids : Finset CommandId) (id : CommandId) : id ∈ inOrder ids ↔ id ∈ ids :=
  Finset.mem_sort _

theorem mem_entriesInOrder (verdicts : Table CommandId Verdict) (id : CommandId)
    (verdict : Verdict) :
    (id, verdict) ∈ entriesInOrder verdicts ↔ verdicts.lookup id = some verdict := by
  unfold entriesInOrder
  rw [List.mem_filterMap]
  constructor
  · rintro ⟨other, _, found⟩
    obtain ⟨held, looked, same⟩ := Option.map_eq_some_iff.mp found
    cases same
    exact looked
  · intro looked
    refine ⟨id, ?_, Option.map_eq_some_iff.mpr ⟨verdict, looked, rfl⟩⟩
    exact (mem_inOrder _ id).mpr (Finmap.mem_keys.mpr (Finmap.mem_of_lookup_eq_some looked))

theorem entriesInOrder_distinct (verdicts : Table CommandId Verdict) :
    ((entriesInOrder verdicts).map Prod.fst).Nodup := by
  rw [entriesInOrder, List.map_filterMap]
  apply (Finset.sort_nodup verdicts.keys (· ≤ ·)).filterMap
  intro id other shown here there
  obtain ⟨_, first, rfl⟩ := Option.map_eq_some_iff.mp here
  obtain ⟨_, second, same⟩ := Option.map_eq_some_iff.mp there
  obtain ⟨_, _, rfl⟩ := Option.map_eq_some_iff.mp first
  obtain ⟨_, _, rfl⟩ := Option.map_eq_some_iff.mp second
  exact same.symm

variable {checker : Invariants} {db : Db} {history : List Db}

/-- The comparison of one state's verdicts with those recalled. -/
def compared (atMs : Int) (device : Nat) (db : Db) (seen : Table CommandId Verdict) :
    Table CommandId Verdict × List Violation :=
  (entriesInOrder (recorded atMs device db.resolved).1).foldl (compareVerdict atMs device) (seen, [])

/-- Seen verdicts missing from this state. -/
def missing (atMs : Int) (device : Nat) (db : Db) (seen : Table CommandId Verdict) : List CommandId :=
  (inOrder (compared atMs device db seen).1.keys).filter (· ∉ (recorded atMs device db.resolved).1)

theorem checkDurability_eq (seen : Table CommandId Verdict)
    (recalled : (checker.resolved.lookup device).getD ∅ = seen) :
    checker.checkDurabilityAndIdempotency atMs device db =
      { checker with
        resolved := checker.resolved.insert device
          ((missing atMs device db seen).foldl (fun seen id => Finmap.erase id seen)
            (compared atMs device db seen).1)
        violations := checker.violations ++ (recorded atMs device db.resolved).2 ++
          (compared atMs device db seen).2 ++ (missing atMs device db seen).map fun id =>
            ⟨"durability", some device, s!"command {id} was resolved and is no longer recorded",
              atMs⟩ } := by
  subst recalled
  rfl

theorem compared_silent (seen : Table CommandId Verdict) :
    (compared atMs device db seen).2 = [] ↔ ∀ id verdict prior,
      (recorded atMs device db.resolved).1.lookup id = some verdict →
        seen.lookup id = some prior → prior = verdict := by
  rw [compared, compareVerdict_silent (entriesInOrder_distinct _), eq_self, true_and]
  constructor
  · intro agree id verdict prior here before
    exact agree (id, verdict) ((mem_entriesInOrder ..).mpr here) prior before
  · intro agree entry member prior before
    exact agree entry.1 entry.2 prior ((mem_entriesInOrder ..).mp member) before

theorem compared_lookup (seen : Table CommandId Verdict) (id : CommandId) (verdict : Verdict) :
    (compared atMs device db seen).1.lookup id = some verdict ↔ seen.lookup id = some verdict ∨
      seen.lookup id = none ∧ (recorded atMs device db.resolved).1.lookup id = some verdict := by
  rw [compared, compareVerdict_lookup (entriesInOrder_distinct _), mem_entriesInOrder]

/-- Nothing is missing when every identifier seen before is resolved in this state. -/
theorem missing_nil (seen : Table CommandId Verdict) :
    missing atMs device db seen = [] ↔ ∀ id verdict, seen.lookup id = some verdict →
      id ∈ settled db := by
  have here (id : CommandId) : id ∈ (recorded atMs device db.resolved).1 ↔ id ∈ settled db :=
    recorded_mem atMs device db.resolved id
  rw [missing, List.filter_eq_nil_iff]
  simp only [mem_inOrder, Finmap.mem_keys, decide_not, Bool.not_eq_true', decide_eq_false_iff_not,
    not_not, here]
  constructor
  · intro all id verdict before
    exact all id (Finmap.mem_of_lookup_eq_some ((compared_lookup seen id verdict).mpr (.inl before)))
  · intro all id member
    obtain ⟨verdict, found⟩ := Finmap.mem_iff.mp member
    rcases (compared_lookup seen id verdict).mp found with before | ⟨_, now⟩
    · exact all id verdict before
    · exact (here id).mp (Finmap.mem_of_lookup_eq_some now)

theorem settled_of_recalled {seen : Table CommandId Verdict} (recalls : Recalls seen history)
    (stays : ∀ earlier ∈ history, VerdictsStay earlier db) {id : CommandId} {verdict : Verdict}
    (before : seen.lookup id = some verdict) :
    ∃ resolution, (id, resolution) ∈ db.resolved ∧ Verdict.of resolution = verdict := by
  obtain ⟨earlier, member, resolution, found, rfl⟩ := (recalls id verdict).mp before
  exact stays earlier member id resolution found

variable (atMs db) in
theorem checkDurability_violations
    (recalls : Recalls ((checker.resolved.lookup device).getD ∅) history) :
    (checker.checkDurabilityAndIdempotency atMs device db).violations = [] ↔
      checker.violations = [] ∧ (settled db).Nodup ∧ ∀ earlier ∈ history, VerdictsStay earlier db := by
  rw [checkDurability_eq _ rfl]
  simp only [List.append_eq_nil_iff, List.map_eq_nil_iff, recorded_silent, compared_silent,
    missing_nil, and_assoc]
  apply and_congr_right
  intro _
  apply and_congr_right
  intro once
  have verdicts := recorded_lookup atMs device once
  constructor
  · rintro ⟨agree, present⟩ earlier member id resolution before
    have seen := (recalls id (Verdict.of resolution)).mpr ⟨earlier, member, resolution, before, rfl⟩
    obtain ⟨⟨_, resolution'⟩, now, rfl⟩ := List.mem_map.mp (present id _ seen)
    have judged := (verdicts _ (Verdict.of resolution')).mpr ⟨resolution', now, rfl⟩
    exact ⟨resolution', now, (agree _ _ _ judged seen).symm⟩
  · intro stays
    constructor
    · intro id verdict prior now seen
      have judged := (verdicts id prior).mpr (settled_of_recalled recalls stays seen)
      rw [now] at judged
      exact (Option.some.inj judged).symm
    · intro id verdict seen
      obtain ⟨_, after, _⟩ := settled_of_recalled recalls stays seen
      exact List.mem_map.mpr ⟨_, after, rfl⟩

theorem checkDurability_recalls
    (recalls : Recalls ((checker.resolved.lookup device).getD ∅) history)
    (once : (settled db).Nodup) (stays : ∀ earlier ∈ history, VerdictsStay earlier db) :
    Recalls (((checker.checkDurabilityAndIdempotency atMs device db).resolved.lookup device).getD ∅)
      (history ++ [db]) := by
  have verdicts := recorded_lookup atMs device once
  have none : missing atMs device db ((checker.resolved.lookup device).getD ∅) = [] := by
    apply (missing_nil _).mpr
    intro id verdict seen
    obtain ⟨_, after, _⟩ := settled_of_recalled recalls stays seen
    exact List.mem_map.mpr ⟨_, after, rfl⟩
  rw [checkDurability_eq _ rfl]
  simp only [none, List.foldl_nil, Finmap.lookup_insert, Option.getD_some]
  intro id verdict
  rw [compared_lookup, verdicts]
  constructor
  · rintro (seen | ⟨_, resolution, now, judged⟩)
    · obtain ⟨earlier, member, found⟩ := (recalls id verdict).mp seen
      exact ⟨earlier, List.mem_append_left [db] member, found⟩
    · exact ⟨db, List.mem_append_right history List.mem_cons_self, resolution, now, judged⟩
  · rintro ⟨state, member, resolution, found, judged⟩
    rcases List.mem_append.mp member with before | last
    · exact .inl ((recalls id verdict).mpr ⟨state, before, resolution, found, judged⟩)
    · rw [List.mem_singleton.mp last] at found
      cases seen : ((checker.resolved.lookup device).getD ∅).lookup id with
      | none => exact .inr ⟨rfl, resolution, found, judged⟩
      | some prior =>
        -- It was resolved before, so with this same verdict.
        have first := (verdicts id verdict).mpr ⟨resolution, found, judged⟩
        have second := (verdicts id prior).mpr (settled_of_recalled recalls stays seen)
        rw [first] at second
        exact .inl second.symm

end Verdicts

/-! ### The outbox -/

/-- What the identifiers ever queued say about the states so far. -/
def Remembers (ever : Finset CommandId) (history : List Db) : Prop :=
  ∀ id, id ∈ ever ↔ ∃ db ∈ history, id ∈ queued db

section Outbox

variable {checker : Invariants} {atMs : Int} {device : Nat} {db : Db} {history : List Db}

/-- Nothing has vanished when all that was ever queued is queued or resolved now. -/
theorem vanished_nil (ever : Finset CommandId) :
    (inOrder (ever ∪ (queued db).toFinset)).filter
        (fun id => id ∉ (queued db).toFinset ∧ id ∉ (settled db).toFinset) = [] ↔
      ∀ id ∈ ever, id ∈ queued db ∨ id ∈ settled db := by
  rw [List.filter_eq_nil_iff]
  simp only [mem_inOrder, Finset.mem_union, List.mem_toFinset, decide_eq_true_eq, not_and, not_not]
  constructor
  · intro all id member
    exact or_iff_not_imp_left.mpr (all id (.inl member))
  · intro all id member unqueued
    rcases member with before | now
    · exact (all id before).resolve_left unqueued
    · exact absurd now unqueued

theorem ever_kept_iff {ever : Finset CommandId} (remembers : Remembers ever history) :
    (∀ id ∈ ever, id ∈ queued db ∨ id ∈ settled db) ↔ ∀ earlier ∈ history, Unlost earlier db := by
  constructor
  · intro all earlier member id before
    exact all id ((remembers id).mpr ⟨earlier, member, before⟩)
  · intro unlost id member
    obtain ⟨earlier, past, before⟩ := (remembers id).mp member
    exact unlost earlier past id before

variable (atMs db) in
theorem checkNoLoss_violations
    (remembers : Remembers ((checker.everQueued.lookup device).getD ∅) history) :
    (checker.checkNoLoss atMs device db).violations = [] ↔
      checker.violations = [] ∧ Apart db ∧ ∀ earlier ∈ history, Unlost earlier db := by
  have apart : inOrder ((queued db).toFinset ∩ (settled db).toFinset) = [] ↔ Apart db := by
    rw [List.eq_nil_iff_forall_not_mem]
    simp only [mem_inOrder, Finset.mem_inter, List.mem_toFinset, not_and, Apart]
  rw [← ever_kept_iff remembers, ← vanished_nil, ← apart, ← and_assoc]
  unfold checkNoLoss
  simp only [List.append_eq_nil_iff, List.map_eq_nil_iff]
  rfl

theorem checkNoLoss_remembers
    (remembers : Remembers ((checker.everQueued.lookup device).getD ∅) history)
    (unlost : ∀ earlier ∈ history, Unlost earlier db) :
    Remembers (((checker.checkNoLoss atMs device db).everQueued.lookup device).getD ∅)
      (history ++ [db]) := by
  have none := (vanished_nil _).mpr ((ever_kept_iff remembers).mpr unlost)
  have kept : ((checker.checkNoLoss atMs device db).everQueued.lookup device).getD ∅ =
      (checker.everQueued.lookup device).getD ∅ ∪ (queued db).toFinset := by
    unfold checkNoLoss
    simp only [Finmap.lookup_insert, Option.getD_some]
    exact congrArg (List.foldl (fun ever id => Finset.erase ever id) _) none
  intro id
  rw [kept, Finset.mem_union, List.mem_toFinset, remembers]
  constructor
  · rintro (⟨earlier, member, before⟩ | now)
    · exact ⟨earlier, List.mem_append_left [db] member, before⟩
    · exact ⟨db, List.mem_append_right history List.mem_cons_self, now⟩
  · rintro ⟨state, member, found⟩
    rcases List.mem_append.mp member with before | last
    · exact .inl ⟨state, before, found⟩
    · exact .inr (List.mem_singleton.mp last ▸ found)

end Outbox

/-! ### All three -/

section Device

variable (checker : Invariants) (atMs : Int) (device : Nat) (db : Db) (scope : ScopeId)

@[simp] theorem checkCursorMonotonic_resolved :
    (checker.checkCursorMonotonic atMs device db scope).resolved = checker.resolved := by
  unfold checkCursorMonotonic
  split
  · split <;> rfl
  · rfl

@[simp] theorem checkCursorMonotonic_everQueued :
    (checker.checkCursorMonotonic atMs device db scope).everQueued = checker.everQueued := by
  unfold checkCursorMonotonic
  split
  · split <;> rfl
  · rfl

@[simp] theorem checkDurability_highWater :
    (checker.checkDurabilityAndIdempotency atMs device db).highWater = checker.highWater := rfl

@[simp] theorem checkDurability_everQueued :
    (checker.checkDurabilityAndIdempotency atMs device db).everQueued = checker.everQueued := rfl

@[simp] theorem checkNoLoss_highWater :
    (checker.checkNoLoss atMs device db).highWater = checker.highWater := rfl

@[simp] theorem checkNoLoss_resolved :
    (checker.checkNoLoss atMs device db).resolved = checker.resolved := rfl

/-- Checks only ever add violations. -/
theorem checkDevice_persists (silent : (checker.checkDevice scope (device, atMs, db)).violations = []) :
    checker.violations = [] := by
  have durable : (checker.checkCursorMonotonic atMs device db scope).violations = [] := by
    have both : ((checker.checkCursorMonotonic atMs device db scope).checkDurabilityAndIdempotency
        atMs device db).violations = [] :=
      (List.append_eq_nil_iff.mp (List.append_eq_nil_iff.mp silent).1).1
    rw [checkDurability_eq _ rfl] at both
    exact (List.append_eq_nil_iff.mp (List.append_eq_nil_iff.mp (List.append_eq_nil_iff.mp both).1).1).1
  unfold checkCursorMonotonic at durable
  split at durable
  · split at durable
    · exact absurd durable (by simp)
    · exact durable
  · exact (List.append_eq_nil_iff.mp durable).1

variable {device} in
/-- The summaries of the other devices are left alone. -/
theorem checkDevice_apart {other : Nat} (different : device ≠ other) :
    (checker.checkDevice scope (device, atMs, db)).highWater.lookup (other, scope) =
        checker.highWater.lookup (other, scope) ∧
      (checker.checkDevice scope (device, atMs, db)).resolved.lookup other =
        checker.resolved.lookup other ∧
      (checker.checkDevice scope (device, atMs, db)).everQueued.lookup other =
        checker.everQueued.lookup other := by
  have key : (other, scope) ≠ (device, scope) := fun same => different (congrArg Prod.fst same).symm
  refine ⟨?_, ?_, ?_⟩
  · change (checker.checkCursorMonotonic atMs device db scope).highWater.lookup (other, scope) = _
    unfold checkCursorMonotonic
    split
    · split
      · exact Finmap.lookup_erase_ne key
      · rfl
    · exact Finmap.lookup_insert_of_ne _ key
  · change ((checker.checkCursorMonotonic atMs device db scope).checkDurabilityAndIdempotency atMs
      device db).resolved.lookup other = _
    rw [checkDurability_eq _ rfl]
    exact (Finmap.lookup_insert_of_ne _ (Ne.symm different)).trans
      (congrArg (Finmap.lookup other) (checkCursorMonotonic_resolved ..))
  · exact (Finmap.lookup_insert_of_ne _ (Ne.symm different)).trans
      (congrArg (Finmap.lookup other) (checkCursorMonotonic_everQueued ..))

end Device

/-- The three summaries of a device stand for the states it was seen in. -/
structure Summarises (scope : ScopeId) (device : Nat) (checker : Invariants)
    (history : List (Int × Db)) : Prop where
  marks : MarksHighest scope (checker.highWater.lookup (device, scope)) (history.map Prod.snd)
  recalls : Recalls ((checker.resolved.lookup device).getD ∅) (history.map Prod.snd)
  remembers : Remembers ((checker.everQueued.lookup device).getD ∅) (history.map Prod.snd)

/-- What the checks ask of one more state. -/
def Follows (scope : ScopeId) (history : List (Int × Db)) (event : Int × Db) : Prop :=
  (∀ earlier ∈ history, CursorStays scope earlier.2 event.2) ∧
    ((settled event.2).Nodup ∧ ∀ earlier ∈ history, VerdictsStay earlier.2 event.2) ∧
    Apart event.2 ∧ ∀ earlier ∈ history, Unlost earlier.2 event.2

theorem kept_iff_good {scope : ScopeId} {history : List (Int × Db)} :
    Kept scope (history.map Prod.snd) ↔ Monitor.Good (Follows scope) history := by
  have split : Monitor.Good (Follows scope) history ↔
      (history.Pairwise fun earlier later => CursorStays scope earlier.2 later.2) ∧
      ((∀ event ∈ history, (settled event.2).Nodup) ∧
        history.Pairwise fun earlier later => VerdictsStay earlier.2 later.2) ∧
      (∀ event ∈ history, Apart event.2) ∧
        history.Pairwise fun earlier later => Unlost earlier.2 later.2 := by
    unfold Follows
    simp only [Monitor.good_and, Monitor.good_forall, Monitor.good_pairwise]
  rw [split]
  constructor
  · rintro ⟨cursor, once, durable, apart, unlost⟩
    refine ⟨List.pairwise_map.mp cursor, ⟨?_, List.pairwise_map.mp durable⟩, ?_,
      List.pairwise_map.mp unlost⟩
    · exact fun event member => once event.2 (List.mem_map_of_mem member)
    · exact fun event member => apart event.2 (List.mem_map_of_mem member)
  · rintro ⟨cursor, ⟨once, durable⟩, apart, unlost⟩
    exact ⟨List.pairwise_map.mpr cursor, List.forall_mem_map.mpr once, List.pairwise_map.mpr durable,
      List.forall_mem_map.mpr apart, List.pairwise_map.mpr unlost⟩

/-- One device's checks are silent on a state exactly when it follows from the states before,
and then the summaries stand for it too. -/
theorem checkDevice_silent {scope : ScopeId} {device : Nat} {checker : Invariants}
    {history : List (Int × Db)} (quiet : checker.violations = [])
    (summary : Summarises scope device checker history) (atMs : Int) (db : Db) :
    (checker.checkDevice scope (device, atMs, db)).violations = [] ↔
      Follows scope history (atMs, db) := by
  have marks := checkCursorMonotonic_violations atMs db summary.marks
  have recalled : Recalls (((checker.checkCursorMonotonic atMs device db scope).resolved.lookup
      device).getD ∅) (history.map Prod.snd) := by
    rw [checkCursorMonotonic_resolved]
    exact summary.recalls
  have recalls := checkDurability_violations atMs db recalled
  have remembered : Remembers ((((checker.checkCursorMonotonic atMs device db
      scope).checkDurabilityAndIdempotency atMs device db).everQueued.lookup device).getD ∅)
      (history.map Prod.snd) := by
    rw [checkDurability_everQueued, checkCursorMonotonic_everQueued]
    exact summary.remembers
  have remembers := checkNoLoss_violations atMs db remembered
  rw [recalls, marks] at remembers
  simp only [List.forall_mem_map, quiet, true_and, and_assoc] at remembers
  unfold Follows
  simp only [and_assoc]
  exact remembers

theorem checkDevice_summarises {scope : ScopeId} {device : Nat} {checker : Invariants}
    {history : List (Int × Db)} (summary : Summarises scope device checker history) {atMs : Int}
    {db : Db} (follows : Follows scope history (atMs, db)) :
    Summarises scope device (checker.checkDevice scope (device, atMs, db))
      (history ++ [(atMs, db)]) := by
  obtain ⟨cursor, ⟨once, durable⟩, _, unlost⟩ := follows
  have states : (history ++ [(atMs, db)]).map Prod.snd = history.map Prod.snd ++ [db] := by
    rw [List.map_append, List.map_singleton]
  constructor
  · rw [states]
    exact checkCursorMonotonic_marks summary.marks (List.forall_mem_map.mpr cursor)
  · rw [states]
    exact checkDurability_recalls (by rw [checkCursorMonotonic_resolved]; exact summary.recalls) once
      (List.forall_mem_map.mpr durable)
  · rw [states]
    exact checkNoLoss_remembers
      (by rw [checkDurability_everQueued, checkCursorMonotonic_everQueued]; exact summary.remembers)
      (List.forall_mem_map.mpr unlost)

/-- A fresh checker stands for no states at all. -/
theorem summarises_blank (scope : ScopeId) (device : Nat) : Summarises scope device {} [] := by
  refine ⟨⟨iff_of_true rfl ?_, fun _ => iff_of_true (Nat.zero_le _) ?_⟩, ?_, ?_⟩
  · exact List.forall_mem_nil _
  · exact List.forall_mem_nil _
  · intro id verdict
    apply iff_of_false
    · intro recalled
      exact absurd recalled (by simp)
    · rintro ⟨_, impossible, _⟩
      exact absurd impossible List.not_mem_nil
  · intro id
    apply iff_of_false (Finset.notMem_empty id)
    rintro ⟨_, impossible, _⟩
    exact absurd impossible List.not_mem_nil

/-- The checker is an exact monitor of what each device's states should satisfy. -/
theorem checkDevice_exact (scope : ScopeId) :
    Monitor.Exact (checkDevice scope) (fun checker => checker.violations = [])
      (Summarises scope) (Follows scope) where
  persists checker event silent := checkDevice_persists checker event.2.1 event.1 event.2.2 scope silent
  judges _ _ event _ quiet summary := checkDevice_silent quiet summary event.1 event.2
  keeps _ _ event _ quiet summary silent :=
    checkDevice_summarises summary ((checkDevice_silent quiet summary event.1 event.2).mp silent)
  apart checker _ _ event _ different summary := by
    obtain ⟨marks, recalls, remembers⟩ :=
      checkDevice_apart checker event.1 event.2 scope different
    constructor
    · rw [marks]
      exact summary.marks
    · rw [recalls]
      exact summary.recalls
    · rw [remembers]
      exact summary.remembers

/-! ### A whole run -/

/-- `check_step` after every step of a run, over a fixed set of devices. -/
def checkRun (scope : ScopeId) {devices : Nat} (steps : List (Int × Vector Db devices)) : Invariants :=
  steps.foldl (fun checker step => checker.checkStep scope step.1 step.2.toList) {}

/-- What a step shows of each device. -/
def observed {devices : Nat} (step : Int × Vector Db devices) : List (Nat × Int × Db) :=
  Monitor.numbered 0 (step.2.toList.map fun db => (step.1, db))

theorem checkRun_eq (scope : ScopeId) {devices : Nat} (steps : List (Int × Vector Db devices)) :
    checkRun scope steps = (steps.flatMap observed).foldl (checkDevice scope) {} := by
  have one (checker : Invariants) (step : Int × Vector Db devices) :
      checker.checkStep scope step.1 step.2.toList = (observed step).foldl (checkDevice scope) checker := by
    rw [checkStep, observed, Monitor.numbered, List.foldl_map, List.zipIdx_map, List.foldl_map]
    rfl
  rw [checkRun, List.foldl_flatMap]
  simp only [one]

theorem historyOf_observed {devices : Nat} (device : Nat) (steps : List (Int × Vector Db devices)) :
    Monitor.historyOf device (steps.flatMap observed) =
      if inside : device < devices then steps.map fun step => (step.1, step.2[device]) else [] := by
  have one (step : Int × Vector Db devices) : Monitor.historyOf device (observed step) =
      if inside : device < devices then [(step.1, step.2[device])] else [] := by
    rw [observed, Monitor.historyOf_numbered, if_pos (Nat.zero_le _), Nat.sub_zero]
    split
    · rename_i inside
      simp [inside]
    · rename_i outside
      simp [outside]
  rw [Monitor.historyOf_flatMap]
  simp only [one]
  split
  · exact List.map_eq_flatMap.symm
  · exact List.flatMap_eq_nil_iff.mpr fun _ _ => rfl

end Invariants

/-- The step checker is exact: over a run of any devices it records no violation if and only if
each device keeps every promise over all the states it was seen in. -/
theorem checker_is_exact (scope : ScopeId) {devices : Nat} (steps : List (Int × Vector Db devices)) :
    (Invariants.checkRun scope steps).violations = [] ↔
      ∀ device : Fin devices, Invariants.Kept scope (steps.map fun step => step.2[device]) := by
  rw [Invariants.checkRun_eq,
    (Invariants.checkDevice_exact scope).run rfl fun device => Invariants.summarises_blank scope device]
  simp only [Invariants.historyOf_observed]
  constructor
  · intro good device
    have here := good device
    rw [dif_pos device.isLt, ← Invariants.kept_iff_good, List.map_map] at here
    exact here
  · intro kept device
    split
    · rename_i inside
      rw [← Invariants.kept_iff_good, List.map_map]
      exact kept ⟨device, inside⟩
    · exact Monitor.good_nil

end Sim

end CredSync
