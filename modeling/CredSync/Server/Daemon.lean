import CredSync.Library.FiniteMap
import CredSync.Library.Unwinding
import CredSync.Server.Auth
import CredSync.Server.Query

/-! The daemon's request path. A pull is served after three checks, in order: the token, its
claims, the blocklist. A bearer learns of no scope but those that its token claims. -/

namespace CredSync

/-- The daemon's database: the change log, the watermark that is safe now, and the scopes that
are cut, each with a reason. -/
structure Store where
  changes : List SyncChange := []
  watermark : Int := 0
  blocks : Table ScopeId String := ∅

/-! ### The blocklist -/

inductive Standing where
  | allowed
  | blocked
  deriving DecidableEq

/-- Which queries of a request fail, and how. -/
structure Outages where
  standing : Option ServerError := none
  changes : Option ServerError := none

namespace Blocklist

/-- Looks up one scope's standing. -/
def standing (store : Store) (outages : Outages) (scope : ScopeId) : Except ServerError Standing :=
  match outages.standing with
  | some e => .error e
  | none => .ok (if (store.blocks.lookup scope).isSome then .blocked else .allowed)

/-- Refuses unless a scope is allowed, also where that could not be told. -/
def check (store : Store) (outages : Outages) (scope : ScopeId) : Except AuthError Unit :=
  match standing store outages scope with
  | .ok .allowed => .ok ()
  | .ok .blocked | .error _ => .error (.scopeBlocked (asText scope.bytes))

def block (store : Store) (scope : ScopeId) (reason : String) : Store :=
  { store with blocks := store.blocks.insert scope reason }

def unblock (store : Store) (scope : ScopeId) : Store :=
  { store with blocks := store.blocks.erase scope }

/-- A scope is let through only if it is known not to be cut. -/
theorem check_cases (store : Store) (outages : Outages) (scope : ScopeId) :
    check store outages scope = .ok () ∧ store.blocks.lookup scope = none ∨
      check store outages scope = .error (.scopeBlocked (asText scope.bytes)) := by
  cases outage : outages.standing with
  | some e => simp [check, standing, outage]
  | none => cases listed : store.blocks.lookup scope <;> simp [check, standing, outage, listed]

end Blocklist

/-! ### Requests -/

/-- `GET /v1/pull?scope=…&cursor=…` -/
structure PullParams where
  scope : Bytes
  cursor : Nat := 0

structure HttpRequest where
  authorization : Option Bytes
  params : PullParams

inductive HttpBody where
  | page (changes : List Change) (hasMore : Bool)
  | error (message : String)

structure HttpResponse where
  status : Nat
  body : HttpBody

/-- What a request asks of the database. -/
inductive StoreQuery where
  | standing (scope : ScopeId)
  | changes (scope : ScopeId) (cursor : Nat)
  deriving DecidableEq

/-- A response, and what was asked of the database for it, in order. -/
structure Handled where
  response : HttpResponse
  queries : List StoreQuery

/-- Turns a refusal into a response. -/
def refuse (e : AuthError) : HttpResponse where
  status := if e.isExpired then 401 else 403
  body := .error e.clientMessage

/-- The two refusals there are. -/
def HttpResponse.signInAgain : HttpResponse := refuse .expired
def HttpResponse.notAuthorized : HttpResponse := refuse .badSignature

theorem refuse_eq (e : AuthError) : refuse e =
    if e = .expired then HttpResponse.signInAgain else HttpResponse.notAuthorized := by
  cases e <;> rfl

/-- `changes_after`, by the watermark that is safe. -/
def changesAfter (store : Store) (outages : Outages) (scope : ScopeId) (cursor : Nat) (limit : Int64) :
    Except ServerError Page :=
  match outages.changes with
  | some e => .error e
  | none => changesAfterWatermark store.changes scope cursor limit store.watermark

section Handlers

variable {Key Algorithm : Type} [DecidableEq Algorithm] [ToString Algorithm]
  (verifier : Verifier Key Algorithm) (jwt : Jwt Key Algorithm) (now : Int)

/-- What the bearer of a request is granted, if it bears a token. -/
def grant (authorization : Option Bytes) : Except AuthError Claims :=
  (bearer authorization).bind (verifier.verify jwt now)

/-- The three checks, in order, with what they ask of the database. -/
def authorize (store : Store) (outages : Outages) (authorization : Option Bytes) (scope : ScopeId) :
    Except AuthError Claims × List StoreQuery :=
  match grant verifier jwt now authorization with
  | .error e => (.error e, [])
  | .ok claims =>
    match claims.authorize scope with
    | .error e => (.error e, [])
    | .ok () => ((Blocklist.check store outages scope).map fun _ => claims, [.standing scope])

def pull (store : Store) (outages : Outages) (request : HttpRequest) : Handled :=
  match (BoundedString.new request.params.scope : Except ProtocolError ScopeId) with
  | .error _ => ⟨refuse (.scopeNotClaimed "<invalid>"), []⟩
  | .ok scope =>
    match authorize verifier jwt now store outages request.authorization scope with
    | (.error e, queries) => ⟨refuse e, queries⟩
    | (.ok _, queries) =>
      let queries := queries ++ [.changes scope request.params.cursor]
      match changesAfter store outages scope request.params.cursor 500 with
      | .ok page => ⟨⟨200, .page page.changes page.moreBeyond⟩, queries⟩
      | .error _ => ⟨⟨500, .error "Sync is temporarily unavailable."⟩, queries⟩

end Handlers

/-! ### What a request may learn -/

section Gate

variable {Key Algorithm : Type} [DecidableEq Algorithm] [ToString Algorithm]
  {verifier : Verifier Key Algorithm} {jwt : Jwt Key Algorithm} {now : Int} {store : Store}
  {outages : Outages}

/-- A refusal, with no change read for it. Only an expired token is told apart. -/
structure Handled.Refused (handled : Handled) (granted : Except AuthError Claims) : Prop where
  unread : ∀ scope cursor, .changes scope cursor ∉ handled.queries
  alike : handled.response = .notAuthorized ∨
    handled.response = .signInAgain ∧ granted = .error .expired

/-- A request that was let through to the changes of a scope. -/
structure Handled.Served (handled : Handled) (store : Store) (granted : Except AuthError Claims)
    (params : PullParams) (scope : ScopeId) : Prop where
  named : params.scope = scope.bytes
  claimed : ∃ claims, granted = .ok claims ∧ scope ∈ claims.scopes
  unblocked : store.blocks.lookup scope = none
  queries : handled.queries = [.standing scope, .changes scope params.cursor]

/-- Refusing says no more than whether a token has expired. -/
theorem refuse_cases {granted : Except AuthError Claims} {e : AuthError}
    (expired : e = .expired → granted = .error .expired) :
    refuse e = .notAuthorized ∨ refuse e = .signInAgain ∧ granted = .error .expired := by
  rw [refuse_eq]
  split
  · rename_i same
    exact .inr ⟨rfl, expired same⟩
  · exact .inl rfl

/-- What the three checks come to. -/
theorem authorize_cases (verifier : Verifier Key Algorithm) (jwt : Jwt Key Algorithm) (now : Int)
    (store : Store) (outages : Outages) (authorization : Option Bytes) (scope : ScopeId) :
    (∃ e, grant verifier jwt now authorization = .error e ∧
      authorize verifier jwt now store outages authorization scope = (.error e, [])) ∨
    (∃ text, authorize verifier jwt now store outages authorization scope =
      (.error (.scopeNotClaimed text), [])) ∨
    ∃ claims, grant verifier jwt now authorization = .ok claims ∧ scope ∈ claims.scopes ∧
      (store.blocks.lookup scope = none ∧
        authorize verifier jwt now store outages authorization scope =
          (.ok claims, [.standing scope]) ∨
      ∃ text, authorize verifier jwt now store outages authorization scope =
        (.error (.scopeBlocked text), [.standing scope])) := by
  unfold authorize
  cases grant verifier jwt now authorization with
  | error e => exact .inl ⟨e, rfl, rfl⟩
  | ok claims =>
    by_cases claimed : scope ∈ claims.scopes
    · have passed := Claims.authorize_ok.mpr claimed
      refine .inr (.inr ⟨claims, rfl, claimed, ?_⟩)
      simp only [passed]
      rcases Blocklist.check_cases store outages scope with ⟨clear, unlisted⟩ | cut
      · exact .inl ⟨unlisted, by rw [clear]; rfl⟩
      · exact .inr ⟨_, by rw [cut]; rfl⟩
    · refine .inr (.inl ⟨asText scope.bytes, ?_⟩)
      simp [Claims.authorize, Claims.claimsScope, claimed]

/-- Every request is refused or served, and asks for no standing but of a scope that it may. -/
theorem pull_gated (verifier : Verifier Key Algorithm) (jwt : Jwt Key Algorithm) (now : Int)
    (store : Store) (outages : Outages) (request : HttpRequest) :
    ((pull verifier jwt now store outages request).Refused
        (grant verifier jwt now request.authorization) ∨
      ∃ scope, (pull verifier jwt now store outages request).Served store
        (grant verifier jwt now request.authorization) request.params scope) ∧
    ∀ scope, .standing scope ∈ (pull verifier jwt now store outages request).queries →
      request.params.scope = scope.bytes ∧
        ∃ claims, grant verifier jwt now request.authorization = .ok claims ∧ scope ∈ claims.scopes := by
  unfold pull
  split
  · exact ⟨.inl ⟨by simp, .inl rfl⟩, by simp⟩
  · rename_i scope named
    have named := (BoundedString.bytes_of_new named).symm
    rcases authorize_cases verifier jwt now store outages request.authorization scope with
      ⟨e, failed, refused⟩ | ⟨text, refused⟩ | ⟨claims, granted, claimed, ⟨unlisted, passed⟩ | ⟨text, refused⟩⟩
    · rw [refused]
      exact ⟨.inl ⟨by simp, refuse_cases fun same => by rw [failed, same]⟩, by simp⟩
    · rw [refused]
      exact ⟨.inl ⟨by simp, .inl rfl⟩, by simp⟩
    · rw [passed]
      refine ⟨.inr ⟨scope, named, ⟨claims, granted, claimed⟩, unlisted, ?_⟩, fun other asked => ?_⟩
      · dsimp only
        split <;> rfl
      · have same : other = scope := by
          dsimp only at asked
          split at asked <;> simpa using asked
        rw [same]
        exact ⟨named, claims, granted, claimed⟩
    · rw [refused]
      refine ⟨.inl ⟨by simp, .inl rfl⟩, fun other asked => ?_⟩
      obtain rfl : other = scope := by simpa using asked
      exact ⟨named, claims, granted, claimed⟩

/-- A bearer of a verified token: the one its header carries, by the pinned algorithm and key, not
expired, and with the scope among its claims. -/
structure Bears (verifier : Verifier Key Algorithm) (jwt : Jwt Key Algorithm)
    (Signed : Algorithm → Key → Bytes → Prop) (now : Int) (authorization : Option Bytes)
    (scope : ScopeId) : Prop where
  token : ∃ raw token claims, authorization = some raw ∧ Carries raw token ∧
    verifier.Verified jwt Signed now token claims ∧ scope ∈ claims.scopes

theorem grant_bears {Signed : Algorithm → Key → Bytes → Prop} (lawful : jwt.Lawful Signed)
    {key : Key} {algorithm : Algorithm} {leeway : Nat} {authorization : Option Bytes} {claims : Claims}
    {scope : ScopeId}
    (granted : grant (.new key algorithm leeway) jwt now authorization = .ok claims)
    (claimed : scope ∈ claims.scopes) :
    Bears (.new key algorithm leeway) jwt Signed now authorization scope := by
  unfold grant at granted
  cases bears : bearer authorization with
  | error e =>
    rw [bears] at granted
    cases granted
  | ok token =>
    rw [bears] at granted
    cases authorization with
    | none => cases bears
    | some raw =>
      exact ⟨raw, token, claims, rfl, bearer_ok_iff.mp bears, Verifier.verify_ok lawful granted, claimed⟩

end Gate

/-! ### Runs of the daemon -/

/-- What happens to a daemon's database, and the pulls it is asked for. -/
inductive DaemonEvent where
  | pull (now : Int) (outages : Outages) (request : HttpRequest)
  | write (change : SyncChange)
  | advance (watermark : Int)
  | block (scope : ScopeId) (reason : String)
  | unblock (scope : ScopeId)

def Store.next (store : Store) : DaemonEvent → Store
  | .pull .. => store
  | .write change => { store with changes := store.changes ++ [change] }
  | .advance watermark => { store with watermark := watermark }
  | .block scope reason => Blocklist.block store scope reason
  | .unblock scope => Blocklist.unblock store scope

section Runs

variable {Key Algorithm : Type} [DecidableEq Algorithm] [ToString Algorithm]
  {verifier : Verifier Key Algorithm} {jwt : Jwt Key Algorithm}

theorem next_blocked {store : Store} {event : DaemonEvent} {scope : ScopeId}
    (cut : store.blocks.lookup scope ≠ none) (kept : event ≠ .unblock scope) :
    (store.next event).blocks.lookup scope ≠ none := by
  cases event with
  | block other reason =>
    by_cases same : other = scope
    · rw [same]
      exact fun missing => by cases (Finmap.lookup_insert _).symm.trans missing
    · exact fun missing => cut ((Finmap.lookup_insert_of_ne _ (Ne.symm same)).symm.trans missing)
  | unblock other =>
    have different : scope ≠ other := fun same => kept (by rw [same])
    exact fun missing => cut ((Finmap.lookup_erase_ne different).symm.trans missing)
  | _ => exact cut

/-- The daemon, answering pulls. -/
def daemon (verifier : Verifier Key Algorithm) (jwt : Jwt Key Algorithm) :
    Unwinding.Machine Store DaemonEvent (Option Handled) where
  next := Store.next
  answer store
    | .pull now outages request => some (pull verifier jwt now store outages request)
    | _ => none

/-- What concerns some scopes: what happens to them, and the pulls of those that are granted no
other. -/
def concerns (verifier : Verifier Key Algorithm) (jwt : Jwt Key Algorithm)
    (granted : Finset ScopeId) : DaemonEvent → Bool
  | .pull now _ request =>
    match grant verifier jwt now request.authorization with
    | .ok claims => claims.scopes.all (· ∈ granted)
    | .error _ => true
  | .write change => decide (∃ scope ∈ granted, change.scope = scope.bytes)
  | .advance _ => true
  | .block scope _ => decide (scope ∈ granted)
  | .unblock scope => decide (scope ∈ granted)

/-- Databases that hold the same of some scopes. -/
structure Store.Alike (granted : Finset ScopeId) (first second : Store) : Prop where
  watermark : first.watermark = second.watermark
  changes : ∀ scope ∈ granted, first.changes.filter (·.scope = scope.bytes) =
    second.changes.filter (·.scope = scope.bytes)
  blocks : ∀ scope ∈ granted, first.blocks.lookup scope = second.blocks.lookup scope

variable {granted : Finset ScopeId} {first second : Store}

theorem Store.Alike.refl (granted : Finset ScopeId) (store : Store) : store.Alike granted store :=
  ⟨rfl, fun _ _ => rfl, fun _ _ => rfl⟩

/-- What is read of a scope depends on nothing else. -/
theorem Store.Alike.changesAfter (alike : first.Alike granted second) {scope : ScopeId}
    (mine : scope ∈ granted) (outages : Outages) (cursor : Nat) (limit : Int64) :
    changesAfter first outages scope cursor limit = changesAfter second outages scope cursor limit := by
  have visible (watermark : Int) : visibleRows first.changes scope watermark =
      visibleRows second.changes scope watermark := by
    have split (table : List SyncChange) : visibleRows table scope watermark =
        ((table.filter (·.scope = scope.bytes)).filter
          fun change => decide (change.row.seq ≤ watermark)).map (·.row) := by
      rw [visibleRows, List.filter_filter]
      simp only [Bool.and_comm]
    rw [split, split, alike.changes scope mine]
  unfold CredSync.changesAfter changesAfterWatermark selectChanges
  rw [alike.watermark, visible]

/-- A pull by a bearer who is granted no other scope is answered alike. -/
theorem Store.Alike.pull (alike : first.Alike granted second) {now : Int} {outages : Outages}
    {request : HttpRequest} (seen : concerns verifier jwt granted (.pull now outages request) = true) :
    CredSync.pull verifier jwt now first outages request =
      CredSync.pull verifier jwt now second outages request := by
  unfold CredSync.pull
  split
  · rfl
  · rename_i scope named
    cases grants : grant verifier jwt now request.authorization with
    | error e =>
      unfold authorize
      simp only [grants]
    | ok claims =>
      by_cases claimed : scope ∈ claims.scopes
      · have mine : scope ∈ granted := by
          simp only [concerns, grants, List.all_eq_true] at seen
          exact of_decide_eq_true (seen scope claimed)
        have checked : Blocklist.check first outages scope = Blocklist.check second outages scope := by
          rw [Blocklist.check, Blocklist.check, Blocklist.standing, Blocklist.standing,
            alike.blocks scope mine]
        unfold authorize
        simp only [grants, checked, alike.changesAfter mine]
      · unfold authorize
        simp [grants, Claims.authorize, Claims.claimsScope, claimed]

/-- What concerns no scope of a bearer goes by unseen, and the rest keeps databases alike. -/
theorem daemon_unwinds (verifier : Verifier Key Algorithm) (jwt : Jwt Key Algorithm)
    (granted : Finset ScopeId) :
    (daemon verifier jwt).Unwinds (concerns verifier jwt granted) (Store.Alike granted) where
  hidden first second event unseen alike := by
    cases event with
    | pull => exact alike
    | write change =>
      refine ⟨alike.watermark, fun scope mine => ?_, alike.blocks⟩
      have other : change.scope ≠ scope.bytes := fun same =>
        of_decide_eq_false unseen ⟨scope, mine, same⟩
      rw [← alike.changes scope mine]
      simp [daemon, Store.next, List.filter_append, other]
    | advance watermark => cases unseen
    | block other reason =>
      have apart : other ∉ granted := of_decide_eq_false unseen
      refine ⟨alike.watermark, alike.changes, fun scope mine => ?_⟩
      rw [← alike.blocks scope mine]
      exact Finmap.lookup_insert_of_ne _ fun same => apart (same ▸ mine)
    | unblock other =>
      have apart : other ∉ granted := of_decide_eq_false unseen
      refine ⟨alike.watermark, alike.changes, fun scope mine => ?_⟩
      rw [← alike.blocks scope mine]
      exact Finmap.lookup_erase_ne fun same => apart (same ▸ mine)
  forward first second event seen alike := by
    cases event with
    | pull => exact alike
    | write change =>
      refine ⟨alike.watermark, fun scope mine => ?_, alike.blocks⟩
      simp only [daemon, Store.next, List.filter_append, alike.changes scope mine]
    | advance watermark => exact ⟨rfl, alike.changes, alike.blocks⟩
    | block other reason =>
      refine ⟨alike.watermark, alike.changes, fun scope mine => ?_⟩
      have before := alike.blocks scope mine
      change (Finmap.insert other reason first.blocks).lookup scope =
        (Finmap.insert other reason second.blocks).lookup scope
      rw [Table.lookup_insert_if, Table.lookup_insert_if, before]
    | unblock other =>
      refine ⟨alike.watermark, alike.changes, fun scope mine => ?_⟩
      have before := alike.blocks scope mine
      change (first.blocks.erase other).lookup scope = (second.blocks.erase other).lookup scope
      rw [Table.lookup_erase_if, Table.lookup_erase_if, before]
  answered first second event seen alike := by
    cases event with
    | pull now outages request => exact congrArg some (alike.pull seen)
    | _ => rfl

end Runs

end CredSync

namespace CredSync.Sample

/-- A decoder that knows one token, of one scope, signed by one algorithm. -/
def oneToken : Jwt Unit String where
  decodeHeader token := if token = ascii "a.b.c" then .ok "HS256" else .error "InvalidToken"
  decode token _ validation now :=
    if token ≠ ascii "a.b.c" then .error .invalidSignature
    else if "HS256" ∉ validation.algorithms then .error .invalidAlgorithm
    else if now ≤ 100 + validation.leeway then .ok { scopes := [scope.bytes], exp := 100 }
    else .error .expiredSignature

def oneSigned (algorithm : String) (_ : Unit) (token : Bytes) : Prop :=
  algorithm = "HS256" ∧ token = ascii "a.b.c"

theorem oneToken_lawful : oneToken.Lawful oneSigned where
  signed {token _ validation _ _} decoded := by
    simp only [oneToken] at decoded
    split_ifs at decoded with other unlisted fresh
    exact ⟨"HS256", unlisted, rfl, not_not.mp other⟩
  unexpired {_ _ _ _ _} decoded _ _ := by
    simp only [oneToken] at decoded
    split_ifs at decoded with other unlisted fresh
    cases decoded
    exact fresh

def pinned : Verifier Unit String := .new () "HS256" 0

def ownPull : HttpRequest := ⟨some (ascii "Bearer  a.b.c"), { scope := scope.bytes }⟩

/-- A row of the scope that the token grants, and of one that it does not. -/
def ownRow : SyncChange := ⟨scope.bytes, noteA.toRow⟩
def foreignRow : SyncChange := ⟨ascii "other", noteB.toRow⟩

/-- The token is taken out of its header, and its scope is served. -/
example : (pull pinned oneToken 7 { changes := [ownRow], watermark := 2 } {} ownPull).response.status =
    200 := by
  decide +kernel

end CredSync.Sample
