import CredSync.Protocol.Newtypes

/-! Scope tokens. The host says who may sync what, in a signed token with an explicit list of
scopes; here a token is taken out of its header, verified by the one algorithm there is, and
asked whether it names a scope. -/

namespace CredSync

/-- Why a request was refused at the authorization boundary. -/
inductive AuthError where
  | malformed (detail : String)
  | wrongAlgorithm (found : String)
  | badSignature
  | expired
  | noScopes
  | scopeNotClaimed (requested : String)
  | scopeBlocked (scope : String)
  deriving DecidableEq

namespace AuthError

/-- What the client is told: one sentence for every case but expiry. -/
def clientMessage : AuthError → String
  | .expired => "This session has expired. Please sign in again."
  | _ => "Not authorized for this scope."

def isExpired : AuthError → Bool
  | .expired => true
  | _ => false

end AuthError

instance : ToString AuthError where
  toString
    | .malformed detail => s!"malformed scope token: {detail}"
    | .wrongAlgorithm found => s!"token algorithm '{found}' is not the one this server accepts"
    | .badSignature => "the token's signature did not verify"
    | .expired => "the token has expired"
    | .noScopes => "the token claims no scopes"
    | .scopeNotClaimed requested => s!"scope '{requested}' is not in the token's claims"
    | .scopeBlocked scope => s!"scope '{scope}' is blocked"

/-! ### The bearer token of a header -/

/-- What `HeaderValue::to_str` lets through: visible ASCII, the space and the tab. -/
def isHeaderText (b : UInt8) : Bool := (32 ≤ b && b < 127) || b == 9

/-- `char::is_whitespace` of an ASCII byte. -/
def isAsciiWhitespace (b : UInt8) : Bool := (9 ≤ b && b ≤ 13) || b == 32

def toAsciiLower (b : UInt8) : UInt8 := if isAsciiUppercase b then b + 32 else b

/-- `str::split_once`. -/
def splitOnce (separator : UInt8) : Bytes → Option (Bytes × Bytes)
  | [] => none
  | b :: rest =>
    if b = separator then some ([], rest)
    else (splitOnce separator rest).map fun (before, after) => (b :: before, after)

/-- `bearer`, in lower case. -/
def bearerScheme : Bytes := ascii "bearer"

/-- Takes the bearer token out of the `Authorization` header, if there is one. -/
def bearer (authorization : Option Bytes) : Except AuthError Bytes :=
  match authorization with
  | none => .error (.malformed "no Authorization header")
  | some raw =>
    if raw.all isHeaderText then
      match (splitOnce 32 raw).filter fun (scheme, _) => scheme.map toAsciiLower = bearerScheme with
      | none => .error (.malformed "Authorization header is not a Bearer token")
      | some (_, rest) =>
        let token := rest.dropWhile (· = 32)
        if token = [] then .error (.malformed "empty bearer token")
        else if token.any isAsciiWhitespace then
          .error (.malformed "bearer token contains whitespace")
        else .ok token
    else .error (.malformed "Authorization header is not valid ASCII")

/-! ### Verification -/

/-- The claims that are read. Everything else in a token is ignored. -/
structure RawClaims where
  scopes : List Bytes
  exp : Int
  sub : Option Bytes := none

/-- The kinds of error that a decoder of tokens reports, as far as they are told apart. -/
inductive ErrorKind where
  | expiredSignature
  | invalidSignature
  | invalidAlgorithm
  | invalidAlgorithmName
  | other (debug : String)

/-- What a decoder is told to validate. -/
structure Validation (Algorithm : Type) where
  algorithms : List Algorithm
  leeway : Nat
  requiredSpecClaims : List String
  validateExp : Bool
  validateAud : Bool

/-- The decoder of tokens, which is not of this repository. Decoding reads the clock. -/
structure Jwt (Key Algorithm : Type) where
  decodeHeader : Bytes → Except String Algorithm
  decode : Bytes → Key → Validation Algorithm → Int → Except ErrorKind RawClaims

/-- What its documentation promises: what it decodes is signed by one of the algorithms it was
given, and has not expired if it was to require and look at that. -/
structure Jwt.Lawful {Key Algorithm : Type} (jwt : Jwt Key Algorithm)
    (Signed : Algorithm → Key → Bytes → Prop) : Prop where
  signed : ∀ {token key validation now raw}, jwt.decode token key validation now = .ok raw →
    ∃ algorithm ∈ validation.algorithms, Signed algorithm key token
  unexpired : ∀ {token key validation now raw}, jwt.decode token key validation now = .ok raw →
    "exp" ∈ validation.requiredSpecClaims → validation.validateExp = true →
      now ≤ raw.exp + validation.leeway

/-- Maps the decoder's kinds of error: expiry stays apart. -/
def mapJwtErr : ErrorKind → AuthError
  | .expiredSignature => .expired
  | .invalidSignature => .badSignature
  | .invalidAlgorithm | .invalidAlgorithmName => .wrongAlgorithm "rejected by the decoder"
  | .other debug => .malformed debug

/-- What a validated token grants. -/
structure Claims where
  scopes : List ScopeId
  subject : Option Bytes
  expiresAt : Int

namespace Claims

/-- An exact match: no prefixes, no wildcards. -/
def claimsScope (claims : Claims) (scope : ScopeId) : Bool := claims.scopes.any (· = scope)

def authorize (claims : Claims) (scope : ScopeId) : Except AuthError Unit :=
  if claims.claimsScope scope then .ok ()
  else .error (.scopeNotClaimed (asText scope.bytes))

theorem authorize_ok {claims : Claims} {scope : ScopeId} :
    claims.authorize scope = .ok () ↔ scope ∈ claims.scopes := by
  simp [authorize, claimsScope]

end Claims

section Verifying

variable {Key Algorithm : Type}

/-- Verifies tokens against one key and one algorithm. -/
structure Verifier (Key Algorithm : Type) where
  key : Key
  algorithm : Algorithm
  validation : Validation Algorithm

def Verifier.new (key : Key) (algorithm : Algorithm) (leeway : Nat) : Verifier Key Algorithm where
  key := key
  algorithm := algorithm
  validation := {
    algorithms := [algorithm]
    leeway := leeway
    requiredSpecClaims := ["exp"]
    validateExp := true
    validateAud := false }

variable [DecidableEq Algorithm] [ToString Algorithm]

/-- Verifies a token and returns what it grants. The header's algorithm is only ever compared. -/
def Verifier.verify (verifier : Verifier Key Algorithm) (jwt : Jwt Key Algorithm) (now : Int)
    (token : Bytes) : Except AuthError Claims :=
  match jwt.decodeHeader token with
  | .error e => .error (.malformed s!"unreadable header: {e}")
  | .ok algorithm =>
    if algorithm ≠ verifier.algorithm then .error (.wrongAlgorithm (toString algorithm))
    else
      match jwt.decode token verifier.key verifier.validation now with
      | .error kind => .error (mapJwtErr kind)
      | .ok raw =>
        if raw.scopes = [] then .error .noScopes
        else
          match raw.scopes.mapM (BoundedString.new · : Bytes → Except ProtocolError ScopeId) with
          | .error e => .error (.malformed s!"a claimed scope is not a valid scope id: {e}")
          | .ok scopes => .ok ⟨scopes, raw.sub, raw.exp⟩

/-- A token that was verified: its header and its signature are of the pinned algorithm, and it
has not expired. -/
structure Verifier.Verified (verifier : Verifier Key Algorithm) (jwt : Jwt Key Algorithm)
    (Signed : Algorithm → Key → Bytes → Prop) (now : Int) (token : Bytes) (claims : Claims) :
    Prop where
  verified : verifier.verify jwt now token = .ok claims
  header : jwt.decodeHeader token = .ok verifier.algorithm
  signed : Signed verifier.algorithm verifier.key token
  unexpired : now ≤ claims.expiresAt + verifier.validation.leeway

theorem Verifier.verify_ok {jwt : Jwt Key Algorithm} {Signed : Algorithm → Key → Bytes → Prop}
    (lawful : jwt.Lawful Signed) {key : Key} {algorithm : Algorithm} {leeway : Nat} {now : Int}
    {token : Bytes} {claims : Claims}
    (verified : (Verifier.new key algorithm leeway).verify jwt now token = .ok claims) :
    (Verifier.new key algorithm leeway).Verified jwt Signed now token claims := by
  have kept := verified
  unfold verify at verified
  split at verified
  · cases verified
  · rename_i named header
    split at verified
    · cases verified
    · rename_i same
      obtain rfl := not_not.mp same
      split at verified
      · cases verified
      · rename_i raw decoded
        split at verified
        · cases verified
        · split at verified
          · cases verified
          · cases verified
            obtain ⟨algorithm', pinned, signed⟩ := lawful.signed decoded
            obtain rfl := List.mem_singleton.mp pinned
            exact ⟨kept, header, signed, lawful.unexpired decoded List.mem_cons_self rfl⟩

end Verifying

/-! ### What is accepted -/

theorem splitOnce_eq_some {separator : UInt8} {text before after : Bytes} :
    splitOnce separator text = some (before, after) ↔
      text = before ++ separator :: after ∧ separator ∉ before := by
  induction text generalizing before with
  | nil => simp [splitOnce]
  | cons b rest ih =>
    rw [splitOnce]
    split
    · rename_i here
      subst here
      cases before with
      | nil => simp
      | cons first more => simp +contextual
    · rename_i other
      rw [Option.map_eq_some_iff]
      cases before with
      | nil => simp [other]
      | cons first more =>
        constructor
        · rintro ⟨⟨kept, left⟩, split, same⟩
          cases same
          obtain ⟨rfl, apart⟩ := ih.mp split
          exact ⟨rfl, by simp [apart, Ne.symm other]⟩
        · rintro ⟨same, apart⟩
          obtain ⟨rfl, rest⟩ := List.cons.inj same
          exact ⟨(more, after), ih.mpr ⟨rest, fun member => apart (List.mem_cons_of_mem _ member)⟩, rfl⟩

/-- A header that carries a token: the scheme in any case, one space or more, and a token of
visible characters. -/
structure Carries (raw token : Bytes) : Prop where
  text : ∃ scheme spaces, raw = scheme ++ List.replicate (spaces + 1) 32 ++ token ∧
    scheme.map toAsciiLower = bearerScheme
  some : token ≠ []
  visible : ∀ b ∈ token, isEntityIdByte b = true

/-- A letter of the scheme, in either case. -/
theorem of_toAsciiLower {b : UInt8} (letter : toAsciiLower b ∈ bearerScheme) :
    isHeaderText b = true ∧ b ≠ 32 := by
  have all : ∀ n : Fin 256, toAsciiLower (UInt8.ofNat n) ∈ bearerScheme →
      isHeaderText (UInt8.ofNat n) = true ∧ UInt8.ofNat n ≠ 32 := by decide +kernel
  have here := all ⟨b.toNat, b.toNat_lt⟩
  rw [UInt8.ofNat_toNat] at here
  exact here letter

/-- Text of a header without whitespace is visible, and the other way about. -/
theorem isEntityIdByte_iff {b : UInt8} :
    isEntityIdByte b = true ↔ isHeaderText b = true ∧ isAsciiWhitespace b = false := by
  have all : ∀ n : Fin 256, isEntityIdByte (UInt8.ofNat n) = true ↔
      isHeaderText (UInt8.ofNat n) = true ∧ isAsciiWhitespace (UInt8.ofNat n) = false := by
    decide +kernel
  have here := all ⟨b.toNat, b.toNat_lt⟩
  rwa [UInt8.ofNat_toNat] at here

/-- A header is accepted if and only if it carries a token, and with the token it carries. -/
theorem bearer_ok_iff {raw token : Bytes} : bearer (some raw) = .ok token ↔ Carries raw token := by
  constructor
  · intro accepted
    unfold bearer at accepted
    simp only at accepted
    split at accepted
    · rename_i text
      split at accepted
      · cases accepted
      · rename_i scheme rest found
        obtain ⟨split, named⟩ := Option.filter_eq_some_iff.mp found
        obtain ⟨rfl, apart⟩ := splitOnce_eq_some.mp split
        split at accepted
        · cases accepted
        · rename_i some
          split at accepted
          · cases accepted
          · rename_i plain
            cases accepted
            have spaces : rest.takeWhile (· = 32) =
                List.replicate (rest.takeWhile (· = 32)).length 32 :=
              List.eq_replicate_iff.mpr ⟨rfl, fun b member =>
                of_decide_eq_true (List.all_eq_true.mp List.all_takeWhile b member)⟩
            refine ⟨⟨scheme, (rest.takeWhile (· = 32)).length, ?_, of_decide_eq_true named⟩, some,
              fun b member => ?_⟩
            · rw [List.replicate_succ, ← spaces, List.append_assoc, List.cons_append,
                List.takeWhile_append_dropWhile]
            · have inside : b ∈ rest := (List.dropWhile_sublist _).subset member
              refine isEntityIdByte_iff.mpr ⟨List.all_eq_true.mp text b ?_, ?_⟩
              · exact List.mem_append_right _ (List.mem_cons_of_mem _ inside)
              · exact Bool.eq_false_iff.mpr fun white =>
                  plain (List.any_eq_true.mpr ⟨b, member, white⟩)
    · cases accepted
  · rintro ⟨⟨scheme, spaces, rfl, named⟩, some, visible⟩
    have letters (b : UInt8) (member : b ∈ scheme) : isHeaderText b = true ∧ b ≠ 32 :=
      of_toAsciiLower (named ▸ List.mem_map_of_mem member)
    have plain (b : UInt8) (member : b ∈ token) := isEntityIdByte_iff.mp (visible b member)
    have text : (scheme ++ List.replicate (spaces + 1) 32 ++ token).all isHeaderText = true := by
      simp only [List.all_eq_true, List.mem_append, List.mem_replicate]
      rintro b ((named | ⟨-, rfl⟩) | inside)
      · exact (letters b named).1
      · rfl
      · exact (plain b inside).1
    have split : splitOnce 32 (scheme ++ List.replicate (spaces + 1) 32 ++ token) =
        .some (scheme, List.replicate spaces 32 ++ token) :=
      splitOnce_eq_some.mpr ⟨by simp [List.replicate_succ],
        fun member => (letters 32 member).2 rfl⟩
    have trimmed : (List.replicate spaces (32 : UInt8) ++ token).dropWhile (· = 32) = token := by
      rw [List.dropWhile_append_of_pos fun b member => by simp [List.eq_of_mem_replicate member]]
      obtain ⟨first, rest, rfl⟩ := List.exists_cons_of_ne_nil some
      refine List.dropWhile_cons_of_neg fun space => ?_
      rw [of_decide_eq_true space] at plain
      exact absurd (plain 32 List.mem_cons_self).2 (by decide)
    have unspaced : token.any isAsciiWhitespace = false :=
      List.any_eq_false.mpr fun b member => by simp [(plain b member).2]
    unfold bearer
    simp only [text, if_true, split, Option.filter_some, named, decide_true, trimmed, some, if_false,
      unspaced, Bool.false_eq_true]

end CredSync
