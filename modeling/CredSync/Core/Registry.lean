import CredSync.Library.FiniteMap
import CredSync.Protocol.Wire

/-! What the host declares: its entities and commands, and its single-step
schema migrations. -/

namespace CredSync

inductive RegistryError where
  | unknownCommand (name : CommandName)
  | unknownEntity (entity : EntityName)
  | serverAuthoritative (entity : EntityName)
  deriving DecidableEq

instance : ToString RegistryError where
  toString
    | .unknownCommand name => s!"command '{name}' is not registered, so its target is unknown"
    | .unknownEntity entity => s!"entity '{entity}' is not registered"
    | .serverAuthoritative entity =>
        s!"entity '{entity}' is server-authoritative and accepts no commands"

/-- The declared entities, each under its own name, and the entity each command
writes. One entry for each entity, so an entity has exactly one scope. -/
structure Registry where
  entities : Table EntityName EntityRegistration
  commands : Table CommandName EntityName
  keyed : ∀ entity registration, entities.lookup entity = some registration →
    registration.entity = entity

namespace Registry

def new : Registry := ⟨∅, ∅, fun entity registration found => by
  rw [Finmap.lookup_empty] at found
  cases found⟩

def registerEntity (registry : Registry) (registration : EntityRegistration) : Registry where
  entities := registry.entities.insert registration.entity registration
  commands := registry.commands
  keyed := by
    intro entity other found
    rw [Table.lookup_insert_if] at found
    split at found
    · rename_i same
      cases found
      exact same.symm
    · exact registry.keyed entity other found

def registerCommand (registry : Registry) (name : CommandName) (entity : EntityName) : Registry where
  entities := registry.entities
  commands := registry.commands.insert name entity
  keyed := registry.keyed

def entity (registry : Registry) (entity : EntityName) : Option EntityRegistration :=
  registry.entities.lookup entity

def schemaVersionOf (registry : Registry) (entity : EntityName) : Option SchemaVersion :=
  (registry.entity entity).map (·.schemaVersion)

def classOf (registry : Registry) (entity : EntityName) : Option ConflictClass :=
  (registry.entity entity).map (·.conflictClass)

def scopeOf (registry : Registry) (entity : EntityName) : Option ScopeId :=
  (registry.entity entity).map (·.scope)

def targetOf (registry : Registry) (name : CommandName) : Option EntityName :=
  registry.commands.lookup name

/-- The entities mapped to a scope, as `begin_rebootstrap` collects them. -/
def entitiesOf (registry : Registry) (scope : ScopeId) : Finset EntityName :=
  registry.entities.keys.filter fun entity => registry.scopeOf entity = some scope

theorem mem_entitiesOf {registry : Registry} {scope : ScopeId} {entity : EntityName} :
    entity ∈ registry.entitiesOf scope ↔ registry.scopeOf entity = some scope := by
  rw [entitiesOf, Finset.mem_filter, and_iff_right_iff_imp]
  intro registered
  rw [scopeOf, Registry.entity] at registered
  obtain ⟨registration, found, _⟩ := Option.map_eq_some_iff.mp registered
  exact Finmap.mem_keys.mpr (Finmap.mem_of_lookup_eq_some found)

/-- Whether a command may be queued at all. -/
def checkCommand (registry : Registry) (command : Command) : Except RegistryError EntityName :=
  match registry.targetOf command.name with
  | none => .error (.unknownCommand command.name)
  | some entity =>
    match registry.entity entity with
    | none => .error (.unknownEntity entity)
    | some registration =>
      if registration.conflictClass.acceptsCommands then .ok entity
      else .error (.serverAuthoritative entity)

end Registry

/-- One schema version to the next. -/
abbrev MigrationFn := Value → Except String Value

inductive MigrationError where
  | noPath (entity : EntityName) (stuckAt target : Nat)
  | failed (entity : EntityName) (old new : Nat) (reason : String)
  | invalid (entity : EntityName) (detail : String)
  | backward (old new : Nat)
  deriving DecidableEq

instance : ToString MigrationError where
  toString
    | .noPath entity stuckAt target =>
        s!"no registered migration for {entity} from schema {stuckAt}, needed to reach {target}"
    | .failed entity old new reason => s!"migrating {entity} from {old} to {new} failed: {reason}"
    | .invalid entity detail => s!"the migrated {entity} document is invalid: {detail}"
    | .backward old new => s!"refused to migrate backward, from {old} to {new}"

/-- The registered steps, keyed by entity and the version they start from. -/
structure Migrations where
  steps : Table (EntityName × Nat) MigrationFn

namespace Migrations

def new : Migrations := ⟨∅⟩

def register (migrations : Migrations) (entity : EntityName) (old : SchemaVersion)
    (f : MigrationFn) : Migrations :=
  ⟨migrations.steps.insert (entity, old.get) f⟩

/-- The loop of `migrate_value`: `remaining` single steps from `version`. -/
def walk (migrations : Migrations) (entity : EntityName) (target : Nat) :
    Nat → Nat → Value → Except MigrationError Value
  | 0, _, current => .ok current
  | remaining + 1, version, current =>
    match migrations.steps.lookup (entity, version) with
    | none => .error (.noPath entity version target)
    | some step =>
      match step current with
      | .error reason => .error (.failed entity version (version + 1) reason)
      | .ok next => walk migrations entity target remaining (version + 1) next

/-- Migrates a document one version at a time, forward only. -/
def migrateValue (migrations : Migrations) (entity : EntityName) (value : Value)
    (old new : SchemaVersion) : Except MigrationError Value :=
  if new.get < old.get then .error (.backward old.get new.get)
  else if new.get = old.get then .ok value
  else migrations.walk entity new.get (new.get - old.get) old.get value

end Migrations

end CredSync
