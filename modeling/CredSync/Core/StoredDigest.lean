import CredSync.Core.Memory
import CredSync.Protocol.Digests

/-! The digest of a scope, from the calls that build it up to the string storage keeps
and back into the memory of an engine that no longer trusts its own copy. -/

namespace CredSync

/-- A reload puts into memory the digest that was stored. -/
theorem Device.refreshIfSuspect_restores {device : Device} {faults : Faults} {scope : ScopeId}
    (suspect : scope ∈ device.engine.suspect) (readable : faults.scopeState = none)
    (cursor : device.db.cursors.lookup scope = some state.cursor)
    (digest : device.db.digests.lookup scope = some state.digest.toHex) :
    (device.refreshIfSuspect faults scope).2.engine.scopes.lookup scope = some state := by
  have stored : device.db.scopeState faults scope = .ok (some ⟨state.cursor, state.digest.toHex⟩) := by
    rw [Db.scopeState, readable, Db.stored, cursor, digest]
    rfl
  simp only [refreshIfSuspect, if_pos suspect, stored, ScopeDigest.restored_toHex]
  exact Finmap.lookup_insert _

section Survival

variable [Hashing]

/-- Every digest is printed without a panic as 32 lowercase hexadecimal characters, different
ones differently, and a reload reads back the digest that was stored. What calls build up is
the digest over the rows they leave, in whatever order those are taken. -/
theorem digest_survives_storage :
    (∀ digest : ScopeDigest, hexU128OrPanic digest.raw = some digest.toHex ∧
      digest.toHex.bytes.length = 32 ∧ digest.toHex.bytes.all isLowerHex = true ∧
      HexString.new digest.toHex.bytes = .ok digest.toHex) ∧
    Function.Injective ScopeDigest.toHex ∧
    (∀ (cursor : Cursor) (digest : ScopeDigest),
      (StoredScope.mk cursor digest.toHex).parsed = digest) ∧
    (∀ (device : Device) (faults : Faults) (scope : ScopeId) (state : ScopeState),
      scope ∈ device.engine.suspect → faults.scopeState = none →
      device.db.cursors.lookup scope = some state.cursor →
      device.db.digests.lookup scope = some state.digest.toHex →
      (device.refreshIfSuspect faults scope).2.engine.scopes.lookup scope = some state) ∧
    ∀ (calls : List DigestCall) (rows : List DigestRow), DigestCall.AllMatch 0 calls →
      (rows : Multiset DigestRow) = DigestCall.leaveAll 0 calls →
      ScopeDigest.accumulate calls = ScopeDigest.fromRowList rows := by
  refine ⟨?_, ScopeDigest.toHex_injective, ?_, ?_, ?_⟩
  · intro digest
    exact ⟨hexU128OrPanic_eq digest.raw, digest.toHex.width, digest.toHex.admitted,
      digest.toHex.new_bytes⟩
  · intro cursor digest
    exact congrArg ScopeState.digest (ScopeDigest.restored_toHex cursor digest)
  · intro device faults scope state suspect readable cursor digest
    exact Device.refreshIfSuspect_restores suspect readable cursor digest
  · intro calls rows held left
    rw [← ScopeDigest.fromRows_coe, left]
    exact ScopeDigest.fromRows_leaveAll held

end Survival

namespace Sample

attribute [local instance] noteHashes

/-- A note is edited and deleted while another one stays. -/
def editedThenDeleted : List DigestCall :=
  [.add note first 1, .add note second 1, .update note first 1 2, .remove note first 2]

/-- The position of a client that holds the second note alone. -/
def secondAlone : ScopeState := ⟨3, ScopeDigest.fromRowList [(note, second, 1)]⟩

/-- That client after a transaction that misreported: memory is behind storage. -/
def suspectDevice : Device where
  engine := { suspect := {scope} }
  db :=
    { cursors := Finmap.singleton scope secondAlone.cursor
      digests := Finmap.singleton scope secondAlone.digest.toHex }

theorem secondAlone_survives :
    (suspectDevice.refreshIfSuspect Faults.none scope).2.engine.scopes.lookup scope =
        some secondAlone ∧
      ScopeDigest.accumulate editedThenDeleted = secondAlone.digest :=
  ⟨digest_survives_storage.2.2.2.1 suspectDevice Faults.none scope secondAlone (by decide) rfl
      Finmap.lookup_singleton_eq Finmap.lookup_singleton_eq,
    digest_survives_storage.2.2.2.2 editedThenDeleted [(note, second, 1)] (by decide) (by decide)⟩

end Sample

end CredSync
