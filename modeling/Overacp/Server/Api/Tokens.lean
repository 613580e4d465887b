import Overacp.Server.Api.Agents
import Overacp.Server.Auth

/-!
# Minting tokens

`POST /tokens` hands out a token that is to expire a number of seconds from now. The number is the
caller's, anything above zero, and is added to the clock in an `i64`.
-/

namespace Overacp

namespace Tokens

def defaultAgentTtlSecs : Int := 30 * 24 * 60 * 60

structure MintRequest where
  agentId : Uuid
  user : Option Uuid
  ttlSecs : Option Int

structure MintResponse where
  token : String
  claims : Claims

/-- The lifetime that is asked for. -/
def MintRequest.ttl (req : MintRequest) : Int := req.ttlSecs.getD defaultAgentTtlSecs

/-- `mint_token`; a response is answered with 201, and `none` is a panic. -/
def mintToken (jwt : Jwt) (auth : StaticJwtAuthenticator) (checks : Bool) (now : Nat) (req : MintRequest) :
    Option (Except ApiError MintResponse) :=
  if req.ttl ≤ 0 then some (.error (.badRequest "ttl_secs must be positive"))
  else do
    let claims ← Claims.agent checks now req.agentId req.user req.ttl auth.issuer
    match auth.mint jwt claims with
    | .error e => return .error (.internal s!"mint failed: invalid token: {e.reason}")
    | .ok token => return .ok ⟨token, claims⟩

/-- What is answered with 201: a positive lifetime, and the token of the agent's claims. -/
theorem mintToken_created {jwt : Jwt} {auth : StaticJwtAuthenticator} {checks : Bool} {now : Nat}
    {req : MintRequest} {response : MintResponse}
    (h : mintToken jwt auth checks now req = some (.ok response)) :
    0 < req.ttl ∧ Claims.i64Add checks now req.ttl = some response.claims.exp ∧
      response.claims = ⟨req.agentId, Claims.roleAgent, req.user, response.claims.exp, auth.issuer⟩ ∧
      auth.mint jwt response.claims = .ok response.token := by
  unfold mintToken at h
  split at h
  · cases h
  · rename_i hpos
    obtain ⟨claims, hclaims, hmint⟩ := Option.bind_eq_some_iff.mp h
    obtain ⟨exp, hexp, heq⟩ := Option.bind_eq_some_iff.mp hclaims
    obtain rfl := Option.some.inj heq
    split at hmint
    · cases hmint
    · rename_i token htoken
      cases hmint
      exact ⟨by omega, hexp, rfl, htoken⟩

/-- The expiry is the sum, and the token validates right away to the agent that was asked for. -/
def MintedRight (jwt : Jwt) (auth : StaticJwtAuthenticator) (now : Nat) (req : MintRequest)
    (response : MintResponse) : Prop :=
  response.claims.exp = now + req.ttl ∧
    ∃ claims, auth.validate jwt now response.token = .ok claims ∧ claims.isAgent = true ∧
      claims.sub = req.agentId ∧ claims.user = req.user

/-- A request that is answered with 201 is answered right just where the sum fits an `i64`. -/
theorem mintedRight_iff {jwt : Jwt} (hjwt : jwt.Lawful) {auth : StaticJwtAuthenticator} {checks : Bool}
    {now : Nat} {req : MintRequest} {response : MintResponse}
    (h : mintToken jwt auth checks now req = some (.ok response)) :
    MintedRight jwt auth now req response ↔ now + req.ttl < 2 ^ 63 := by
  obtain ⟨hpos, hadd, hclaims, hmint⟩ := mintToken_created h
  have hsum := Claims.i64Add_eq_sum_iff hadd
  constructor
  · intro hright
    exact (hsum.mp hright.1).2
  · intro hfits
    have hexp : response.claims.exp = now + req.ttl := hsum.mpr ⟨by omega, hfits⟩
    refine ⟨hexp, response.claims, ?_, ?_, ?_, ?_⟩
    · refine StaticJwtAuthenticator.validate_of_mint hjwt hmint ?_ ?_ ?_ ?_
      · rw [hclaims]
      · exact .inr (by rw [hclaims])
      · omega
      · omega
    · rw [hclaims]
      rfl
    · rw [hclaims]
    · rw [hclaims]

/-- A library that has one token to give, for one key and some claims. -/
private def oneToken (key : String) (claims : Claims) : Jwt where
  encode key' claims' := if key' = key ∧ claims' = claims then .ok "header.claims.signature" else .error "other"
  decode key' issuer now token :=
    if key' = key ∧ token = "header.claims.signature" ∧ claims.iss = issuer ∧ (now : Int) ≤ claims.exp then .ok claims
    else .error "InvalidToken"

private theorem lawful_oneToken (key : String) (claims : Claims) : (oneToken key claims).Lawful where
  decode_encode := by
    intro key' issuer now claims' token hencode hiss hnow hexp
    simp only [oneToken] at hencode
    split at hencode
    · rename_i hsame
      obtain ⟨rfl, rfl⟩ := hsame
      cases hencode
      exact if_pos ⟨rfl, rfl, hiss, hnow⟩
    · cases hencode

private def someAuth : StaticJwtAuthenticator := ⟨"test-key", "overacp"⟩

private def forSeconds (ttlSecs : Int) : MintRequest := ⟨7, some 9, some ttlSecs⟩

private def expiring (exp : Int) : Claims := ⟨7, Claims.roleAgent, some 9, exp, "overacp"⟩

theorem mintedRight_twoMinutes :
    MintedRight (oneToken "test-key" (expiring 1700000120)) someAuth 1700000000 (forSeconds 120)
      ⟨"header.claims.signature", expiring 1700000120⟩ :=
  (@mintedRight_iff _ (lawful_oneToken _ _) someAuth true _ _ _ rfl).mpr (by decide)

/-- The largest lifetime is answered with 201 and a time before the epoch. -/
theorem largest_ttl_minted_wrong :
    ¬ ∀ jwt : Jwt, jwt.Lawful → ∀ auth checks now req response,
      mintToken jwt auth checks now req = some (.ok response) → MintedRight jwt auth now req response := by
  intro h
  have hright := h (oneToken "test-key" (expiring (-9223372035154775809))) (lawful_oneToken _ _) someAuth false
    1700000000 (forSeconds 9223372036854775807) ⟨"header.claims.signature", expiring (-9223372035154775809)⟩ rfl
  exact absurd hright.1 (by decide)

end Tokens

end Overacp
