import CredSync.Protocol.Wire

/-! Protocol version negotiation. A server speaks a window of versions, and tells a client
outside of it which ones would work. -/

namespace CredSync

/-- The versions a server accepts. -/
structure VersionPolicy where
  current : ProtocolVersion
  min : ProtocolVersion
  ordered : min.get ≤ current.get

/-- What the server decided about a request's protocol version. A refusal is not an error. -/
inductive Negotiated where
  | accepted
  | refused (envelope : ForcedUpgrade)

namespace VersionPolicy

/-- `ProtocolVersion::new(current - 1)`, or the current one where that is no version. -/
def below (current : ProtocolVersion) : ProtocolVersion :=
  match (BoundedNum.new (current.get - 1) : Except ProtocolError ProtocolVersion) with
  | .ok min => min
  | .error _ => current

theorem below_get (current : ProtocolVersion) :
    (below current).get = current.get ∧ current.get = 1 ∨
      (below current).get + 1 = current.get := by
  have low : 1 ≤ current.get := current.lower
  by_cases least : current.get = 1
  · have none : ¬ (Limits.protocolVersionMin ≤ current.get - 1 ∧
        current.get - 1 ≤ Limits.u16Max) := by
      rw [least]
      decide
    left
    simp only [below, BoundedNum.new, dif_neg none]
    exact ⟨trivial, least⟩
  · have fits : Limits.protocolVersionMin ≤ current.get - 1 ∧ current.get - 1 ≤ Limits.u16Max :=
      ⟨show 1 ≤ current.get - 1 by omega, Nat.le_trans (Nat.sub_le _ _) current.upper⟩
    right
    simp only [below, BoundedNum.new, dif_pos fits]
    omega

/-- The standard window: the current version and one below it. -/
def window (current : ProtocolVersion) : VersionPolicy where
  current := current
  min := below current
  ordered := by
    rcases below_get current with ⟨same, -⟩ | one <;> omega

/-- A window with a minimum of its own. -/
def new (current min : ProtocolVersion) : Except String VersionPolicy :=
  if above : current.get < min.get then
    .error "the minimum protocol version is above the current one"
  else .ok ⟨current, min, Nat.not_lt.mp above⟩

def serverBehind : Reason :=
  ⟨"This service is running an older version than this app. Please try again later.", by decide⟩

def appBehind : Reason :=
  ⟨"This app is too old to sync. Please update it to continue.", by decide⟩

variable (policy : VersionPolicy) (client : ProtocolVersion)

/-- The `426` envelope for a client outside the window. -/
def envelope : ForcedUpgrade where
  minProtocol := policy.min
  currentProtocol := policy.current
  reason := if policy.current.get < client.get then serverBehind else appBehind

/-- Decides whether a request's protocol version can be served. -/
def negotiate : Negotiated :=
  if policy.min.get ≤ client.get ∧ client.get ≤ policy.current.get then .accepted
  else .refused (policy.envelope client)

/-- An envelope that says what would work, and which side is behind. -/
structure Tells (sent : ForcedUpgrade) : Prop where
  minProtocol : sent.minProtocol = policy.min
  currentProtocol : sent.currentProtocol = policy.current
  outside : client.get < policy.min.get ∧ sent.reason = appBehind ∨
    policy.current.get < client.get ∧ sent.reason = serverBehind

variable {policy client}

theorem negotiate_refused {sent : ForcedUpgrade} (refused : policy.negotiate client = .refused sent) :
    policy.Tells client sent := by
  unfold negotiate at refused
  split at refused
  · cases refused
  · rename_i outside
    cases refused
    refine ⟨rfl, rfl, ?_⟩
    by_cases ahead : policy.current.get < client.get
    · exact .inr ⟨ahead, if_pos ahead⟩
    · exact .inl ⟨by omega, if_neg ahead⟩

/-- The standard window accepts the current version and the one below it, and no other. -/
theorem window_accepts (current : ProtocolVersion) : (window current).negotiate client = .accepted ↔
    client.get = current.get ∨ client.get + 1 = current.get := by
  have low := client.lower
  simp only [Limits.protocolVersionMin] at low
  unfold negotiate window
  simp only
  rcases below_get current with ⟨same, least⟩ | one
  · split <;> simp <;> omega
  · split <;> simp <;> omega

end VersionPolicy

end CredSync
