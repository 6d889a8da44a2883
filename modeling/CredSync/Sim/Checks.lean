import CredSync.Core.ApplySpec
import CredSync.Sim.Invariants
import CredSync.Sim.Server
import Mathlib.Data.Prod.Lex

/-! The other claims the simulator checks: what a device holds against what the server says
it should, after every step, and where devices and drafts have settled at the end. -/

namespace CredSync.Sim

/-- The bytes a row is keyed by, which its key is ordered as. -/
def spelling (key : RowKey) : Lex (List Nat × List Nat) :=
  toLex (key.1.bytes.map UInt8.toNat, key.2.bytes.map UInt8.toNat)

theorem spelling_injective : Function.Injective spelling := by
  have letters : Function.Injective (List.map UInt8.toNat) :=
    List.map_injective_iff.mpr fun _ _ => UInt8.toNat_inj.mp
  intro a b same
  obtain ⟨entity, entityId⟩ := Prod.mk.inj (toLex.injective same)
  exact Prod.ext (BoundedString.ext (letters entity)) (BoundedString.ext (letters entityId))

/-- By entity, then by identifier, the first difference deciding. -/
def KeyLe (a b : RowKey) : Prop := spelling a ≤ spelling b

instance : DecidableRel KeyLe := fun a b => inferInstanceAs (Decidable (spelling a ≤ spelling b))
instance : IsTrans RowKey KeyLe := ⟨fun _ _ _ below above => below.trans above⟩
instance : Std.Antisymm KeyLe := ⟨fun _ _ below above => spelling_injective (le_antisymm below above)⟩
instance : Std.Total KeyLe := ⟨fun a b => le_total (spelling a) (spelling b)⟩

/-- The keys of rows in order, as a `BTreeMap` iterates them. -/
def keysInOrder (keys : Finset RowKey) : List RowKey := keys.sort KeyLe

@[simp] theorem mem_keysInOrder {keys : Finset RowKey} {key : RowKey} :
    key ∈ keysInOrder keys ↔ key ∈ keys := by
  simp [keysInOrder]

/-- `rows_at`, in the order its loop meets them. -/
def Server.rowsInOrder (server : Server) (scope : ScopeId) (cursor : Nat) :
    List (RowKey × RowVersion) :=
  (keysInOrder ((server.rowHistory.lookup scope).getD ∅).keys).filterMap fun key =>
    (server.rowVersionAt scope key cursor).map (key, ·)

/-- The highest `seq` in the log. -/
def Server.head (server : Server) : Nat := server.nextSeq - 1

/-- `{:?}` of a class looked up in the registry. -/
def debugClass : Option ConflictClass → String
  | none => "None"
  | some .serverAuthoritative => "Some(ServerAuthoritative)"
  | some .ownerDraft => "Some(OwnerDraft)"
  | some .appendOnly => "Some(AppendOnly)"

namespace Invariants

section Device

variable (atMs : Int) (device : Nat) (db : Db) (server : Server) (scope : ScopeId)

/-- Every row a device holds is at the version its cursor implies. -/
def appliedState : List Violation :=
  match db.cursors.lookup scope with
  | none => []
  | some cursor => (keysInOrder db.rows.keys).flatMap fun key =>
    match db.rows.lookup key with
    | none => []
    | some stored =>
      match server.rowVersionAt scope key cursor.get with
      | some v =>
        if v = stored.rowVersion then []
        else [⟨"applied-state", some device,
          s!"{key.1}/{key.2} is at version {stored.rowVersion.get} but the cursor {cursor.get} " ++
            s!"implies {v.get}", atMs⟩]
      | none => [⟨"applied-state", some device,
          s!"{key.1}/{key.2} is stored at version {stored.rowVersion.get} but no change at or " ++
            s!"below the cursor {cursor.get} ever created it", atMs⟩]

/-- Every row the cursor implies is there. -/
def durableEffects : List Violation :=
  match db.cursors.lookup scope with
  | none => []
  | some cursor => (server.rowsInOrder scope cursor.get).flatMap fun (key, expected) =>
    match db.rows.lookup key with
    | some stored =>
      if stored.rowVersion = expected then []
      else [⟨"durable-effects", some device,
        s!"{key.1}/{key.2} is at version {stored.rowVersion.get} but the cursor {cursor.get} " ++
          s!"implies {expected.get}", atMs⟩]
    | none => [⟨"durable-effects", some device,
        s!"{key.1}/{key.2} should exist at version {expected.get} for cursor {cursor.get}, and " ++
          "is absent — an applied effect was lost", atMs⟩]

/-- A cursor never exceeds the server's log head. -/
def cursorBounds : List Violation :=
  match db.cursors.lookup scope with
  | none => []
  | some cursor =>
    if server.head < cursor.get then [⟨"cursor-bounds", some device,
      s!"cursor {cursor.get} is ahead of the server's log head {server.head}", atMs⟩]
    else []

/-- A device has caught up, and its digest is the server's. -/
def convergence [Hashing] : List Violation :=
  match db.digests.lookup scope with
  | none =>
    if 0 < server.head then [⟨"convergence", some device,
      s!"no digest recorded after settling, while the server holds {server.head} changes", atMs⟩]
    else []
  | some actual =>
    let cursor := ((db.cursors.lookup scope).map (·.get)).getD 0
    if cursor < server.head then [⟨"convergence", some device,
      s!"still at cursor {cursor} after settling, with the server at {server.head}; the device " ++
        "never caught up", atMs⟩]
    else
      let expected := (server.digest scope).toHex
      if actual ≠ expected then [⟨"convergence", some device,
        s!"digest {asText actual.bytes} does not match the server's {asText expected.bytes} " ++
          "after catching up", atMs⟩]
      else []

/-- Only owner drafts are recovered, and every superseded command left one. -/
def policy (registry : Registry) : List Violation :=
  (db.recovered.flatMap fun (id, entity, _) =>
    match registry.classOf entity with
    | some .ownerDraft => []
    | other => [⟨"policy-conformance", some device,
        s!"a draft was recovered for command {id} against entity {entity}, whose class is " ++
          s!"{debugClass other} — only owner drafts have drafts to recover", atMs⟩]) ++
  db.resolved.flatMap fun (id, resolution) =>
    if resolution = .superseded ∧ id ∉ db.recovered.map Prod.fst then
      [⟨"policy-conformance", some device,
        s!"command {id} was superseded but no draft was recovered; the user's edit is gone", atMs⟩]
    else []

end Device

/-- One check of every device, added to what was found before. -/
def checkAll (checker : Invariants) (databases : List Db) (check : Nat → Db → List Violation) :
    Invariants :=
  { checker with
    violations := checker.violations ++ databases.zipIdx.flatMap fun entry => check entry.2 entry.1 }

section Checks

variable (checker : Invariants) (atMs : Int) (databases : List Db) (server : Server)
  (scope : ScopeId)

def checkAppliedState : Invariants :=
  checker.checkAll databases fun device db => appliedState atMs device db server scope

def checkDurableEffects : Invariants :=
  checker.checkAll databases fun device db => durableEffects atMs device db server scope

def checkCursorBounds : Invariants :=
  checker.checkAll databases fun device db => cursorBounds atMs device db server scope

def checkConvergence [Hashing] : Invariants :=
  checker.checkAll databases fun device db => convergence atMs device db server scope

def checkPolicy (registry : Registry) : Invariants :=
  checker.checkAll databases fun device db => policy atMs device db registry

end Checks

/-! ### What they ask for -/

section Silence

variable {atMs : Int} {device : Nat} {db : Db} {server : Server} {scope : ScopeId}

/-- Checks that find nothing leave the checker as it is. -/
theorem checkAll_silent {checker : Invariants} {databases : List Db}
    {check : Nat → Db → List Violation}
    (silent : ∀ device db, databases[device]? = some db → check device db = []) :
    checker.checkAll databases check = checker := by
  have nothing : (databases.zipIdx.flatMap fun entry => check entry.2 entry.1) = [] :=
    List.flatMap_eq_nil_iff.mpr fun entry member =>
      silent entry.2 entry.1 (List.mem_zipIdx_iff_getElem?.mp member)
  rw [checkAll, nothing, List.append_nil]

/-- After further checks a checker has no more to report than once if and only if it had no more
before, and they find nothing. -/
theorem checkAll_violations {checker later : Invariants} {databases : List Db}
    {check : Nat → Db → List Violation} (goes : checker.violations <+: later.violations) :
    (later.checkAll databases check).violations = checker.violations ↔
      later.violations = checker.violations ∧
        ∀ device db, databases[device]? = some db → check device db = [] := by
  obtain ⟨more, same⟩ := goes
  rw [checkAll, ← same, List.append_assoc, List.append_right_eq_self, List.append_right_eq_self,
    List.append_eq_nil_iff, List.flatMap_eq_nil_iff]
  refine and_congr_right fun _ => ?_
  constructor
  · intro silent device db found
    exact silent (db, device) (List.mk_mem_zipIdx_iff_getElem?.mpr found)
  · rintro silent ⟨db, device⟩ member
    exact silent device db (List.mk_mem_zipIdx_iff_getElem?.mp member)

theorem Server.mem_rowsInOrder {key : RowKey} {version : RowVersion} {cursor : Nat} :
    (key, version) ∈ server.rowsInOrder scope cursor ↔
      server.rowVersionAt scope key cursor = some version := by
  simp only [Server.rowsInOrder, List.mem_filterMap, mem_keysInOrder, Option.map_eq_some_iff,
    Prod.mk.injEq]
  constructor
  · rintro ⟨_, _, _, found, rfl, rfl⟩
    exact found
  · intro found
    refine ⟨key, ?_, version, found, rfl, rfl⟩
    unfold Server.rowVersionAt at found
    obtain ⟨versions, kept, _⟩ := Option.bind_eq_some_iff.mp found
    obtain ⟨history, known, row⟩ := Option.bind_eq_some_iff.mp kept
    rw [known]
    exact Finmap.mem_keys.mpr (Finmap.mem_of_lookup_eq_some row)

/-- No row is held at another version than the one expected of it. -/
theorem appliedState_silent : appliedState atMs device db server scope = [] ↔
    ∀ cursor, db.cursors.lookup scope = some cursor → ∀ key v, db.version key = some v →
      server.rowVersionAt scope key cursor.get = some v := by
  unfold appliedState
  cases db.cursors.lookup scope with
  | none => simp
  | some cursor =>
    rw [List.flatMap_eq_nil_iff]
    simp only [mem_keysInOrder, Option.some.injEq, forall_eq', Db.version, Option.map_eq_some_iff]
    constructor
    · rintro silent key _ ⟨stored, held, rfl⟩
      have here := silent key (Finmap.mem_keys.mpr (Finmap.mem_of_lookup_eq_some held))
      rw [held] at here
      cases expected : server.rowVersionAt scope key cursor.get with
      | none =>
        rw [expected] at here
        cases here
      | some v =>
        rw [expected] at here
        by_contra different
        have reported : v ≠ stored.rowVersion := fun same => different (congrArg some same)
        simp only [if_neg reported, List.cons_ne_nil] at here
    · intro agree key _
      cases held : db.rows.lookup key with
      | none => rfl
      | some stored =>
        rw [agree key _ ⟨stored, held, rfl⟩]
        exact if_pos rfl

/-- No row that is expected is missing, or held at another version. -/
theorem durableEffects_silent : durableEffects atMs device db server scope = [] ↔
    ∀ cursor, db.cursors.lookup scope = some cursor → ∀ key v,
      server.rowVersionAt scope key cursor.get = some v → db.version key = some v := by
  unfold durableEffects
  cases db.cursors.lookup scope with
  | none => simp
  | some cursor =>
    rw [List.flatMap_eq_nil_iff]
    simp only [Option.some.injEq, forall_eq']
    constructor
    · intro silent key v expected
      have here := silent (key, v) (Server.mem_rowsInOrder.mpr expected)
      rw [Db.version]
      cases held : db.rows.lookup key with
      | none =>
        rw [held] at here
        cases here
      | some stored =>
        rw [held] at here
        by_contra different
        have reported : stored.rowVersion ≠ v := fun same => different (congrArg some same)
        simp only [if_neg reported, List.cons_ne_nil] at here
    · rintro agree ⟨key, v⟩ member
      have same := agree key v (Server.mem_rowsInOrder.mp member)
      rw [Db.version] at same
      cases held : db.rows.lookup key with
      | none =>
        rw [held] at same
        cases same
      | some stored =>
        rw [held] at same
        exact if_pos (Option.some.inj same)

/-- The two checks of rows are silent on a device that holds exactly what the server says a
client at its cursor should. -/
theorem state_silent : (appliedState atMs device db server scope = [] ∧
      durableEffects atMs device db server scope = []) ↔
    ∀ cursor, db.cursors.lookup scope = some cursor →
      ∀ key, db.version key = server.rowVersionAt scope key cursor.get := by
  rw [appliedState_silent, durableEffects_silent]
  constructor
  · rintro ⟨applied, durable⟩ cursor found key
    exact Option.ext fun v => ⟨applied cursor found key v, durable cursor found key v⟩
  · intro agree
    exact ⟨fun cursor found key v held => (agree cursor found key).symm.trans held,
      fun cursor found key v expected => (agree cursor found key).trans expected⟩

theorem cursorBounds_silent : cursorBounds atMs device db server scope = [] ↔
    ∀ cursor, db.cursors.lookup scope = some cursor → cursor.get ≤ server.head := by
  unfold cursorBounds
  cases db.cursors.lookup scope <;> simp

/-- A device has converged: it has a digest if there is anything to digest, its cursor is at the
head, and its digest is the server's. -/
@[mk_iff]
structure Converged [Hashing] (db : Db) (server : Server) (scope : ScopeId) : Prop where
  digested : db.digests.lookup scope = none → server.head = 0
  caughtUp : ∀ actual, db.digests.lookup scope = some actual →
    server.head ≤ ((db.cursors.lookup scope).map (·.get)).getD 0
  agrees : ∀ actual, db.digests.lookup scope = some actual → actual = (server.digest scope).toHex

theorem convergence_silent [Hashing] : convergence atMs device db server scope = [] ↔
    Converged db server scope := by
  unfold convergence
  cases stored : db.digests.lookup scope with
  | none =>
    simp only [ite_eq_right_iff, List.cons_ne_nil, imp_false, Nat.not_lt, Nat.le_zero]
    exact ⟨fun empty => ⟨fun _ => empty, by simp [stored], by simp [stored]⟩,
      fun converged => converged.digested stored⟩
  | some actual =>
    simp only
    split
    · rename_i behind
      exact iff_of_false (List.cons_ne_nil _ _) fun converged =>
        absurd (converged.caughtUp actual stored) (Nat.not_le.mpr behind)
    · rename_i reached
      rw [ite_eq_right_iff]
      simp only [List.cons_ne_nil, imp_false, not_not]
      constructor
      · intro same
        refine ⟨fun missing => ?_, fun _ _ => Nat.le_of_not_lt reached, fun other known => ?_⟩
        · rw [stored] at missing
          cases missing
        · exact (Option.some.inj (known.symm.trans stored)).trans same
      · exact fun converged => converged.agrees actual stored

/-- Only owner drafts were recovered, and each superseded command has left one. -/
@[mk_iff]
structure Conforms (db : Db) (registry : Registry) : Prop where
  drafts : ∀ draft ∈ db.recovered, registry.classOf draft.2.1 = some .ownerDraft
  recovered : ∀ id, (id, Resolution.superseded) ∈ db.resolved → id ∈ db.recovered.map Prod.fst

theorem policy_silent {registry : Registry} : policy atMs device db registry = [] ↔
    Conforms db registry := by
  unfold policy
  rw [conforms_iff, List.append_eq_nil_iff, List.flatMap_eq_nil_iff, List.flatMap_eq_nil_iff]
  refine and_congr (forall₂_congr fun draft _ => ?_) ?_
  · change (match registry.classOf draft.2.1 with
      | some .ownerDraft => []
      | other => _) = [] ↔ _
    split
    · rename_i owned
      exact iff_of_true rfl owned
    · rename_i other
      exact iff_of_false (List.cons_ne_nil _ _) other
  · constructor
    · intro silent id member
      by_contra missing
      have reported := silent (id, .superseded) member
      simp only [true_and] at reported
      rw [if_pos missing] at reported
      cases reported
    · rintro recovered ⟨id, resolution⟩ member
      refine if_neg fun lost => lost.2 (recovered id ?_)
      rw [← lost.1]
      exact member

/-- A device's cursor is no further than the log, and its rows are those that are expected of a
client there. -/
structure Accounted (db : Db) (server : Server) (scope : ScopeId) : Prop where
  bounded : ∀ cursor, db.cursors.lookup scope = some cursor → cursor.get ≤ server.head
  rows : ∀ cursor, db.cursors.lookup scope = some cursor →
    ∀ key, db.version key = server.rowVersionAt scope key cursor.get

theorem forall_databases {databases : List Db} {holds : Db → Prop} :
    (∀ (device : Nat) db, databases[device]? = some db → holds db) ↔ ∀ db ∈ databases, holds db := by
  simp only [List.mem_iff_getElem?]
  exact ⟨fun all db ⟨device, found⟩ => all device db found, fun all device db found =>
    all db ⟨device, found⟩⟩

end Silence

end Invariants

end CredSync.Sim
