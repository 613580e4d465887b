import Mathlib.Algebra.Group.Int.Defs
import Mathlib.Algebra.Group.Nat.Defs
import Overacp.Server.Registry.Agent

/-!
# Tokens

The roles of a token's claims, and the one authenticator there is: it signs and checks with a key of
its own and accepts the two roles. How claims become a token and come back out of one is a library's.
-/

namespace Overacp

/-- `Invalid`. -/
structure AuthError where
  reason : String
  deriving DecidableEq, Repr

/-- `Authenticator::validate`. -/
abbrev Validate := String → Except AuthError Claims

namespace Claims

def roleAdmin : String := "admin"
def roleAgent : String := "agent"

def isAdmin (claims : Claims) : Bool := claims.role = roleAdmin

def isAgent (claims : Claims) : Bool := claims.role = roleAgent

/-- `a + b` in an `i64`; `none` is the panic of a build that checks for overflow. -/
def i64Add (checks : Bool) (a b : Int) : Option Int :=
  if -2 ^ 63 ≤ a + b ∧ a + b < 2 ^ 63 then some (a + b)
  else if checks then none else some (Int.bmod (a + b) (2 ^ 64))

/-- `Claims::agent` at a time, in seconds of the Unix clock. -/
def agent (checks : Bool) (now : Nat) (agentId : Uuid) (user : Option Uuid) (ttlSecs : Int)
    (issuer : String) : Option Claims := do
  let exp ← i64Add checks now ttlSecs
  return ⟨agentId, roleAgent, user, exp, issuer⟩

/-- A sum is right just where it fits. -/
theorem i64Add_eq_sum_iff {checks : Bool} {a b c : Int} (h : i64Add checks a b = some c) :
    c = a + b ↔ -2 ^ 63 ≤ a + b ∧ a + b < 2 ^ 63 := by
  unfold i64Add at h
  split at h
  · rename_i hfits
    obtain rfl := Option.some.inj h
    exact iff_of_true rfl hfits
  · rename_i hover
    cases checks with
    | true => cases h
    | false =>
        obtain rfl := Option.some.inj h
        refine iff_of_false (fun heq => hover ?_) hover
        have hlower := @Int.le_bmod (a + b) (2 ^ 64) (by decide)
        have hupper := @Int.bmod_lt (a + b) (2 ^ 64) (by decide)
        omega

end Claims

/-! ### The static authenticator -/

/-- The library for tokens: signing claims with a key, and decoding a token with a key, the issuer it
has to come from and the time it must not have expired at. -/
structure Jwt where
  encode : String → Claims → Except String String
  decode : String → String → Nat → String → Except String Claims

/-- Decoding undoes encoding under the same key, for the same issuer and until the claims expire. -/
structure Jwt.Lawful (jwt : Jwt) : Prop where
  decode_encode : ∀ key issuer (now : Nat) claims token, jwt.encode key claims = .ok token → claims.iss = issuer →
    (now : Int) ≤ claims.exp → claims.exp < 2 ^ 63 → jwt.decode key issuer now token = .ok claims

structure StaticJwtAuthenticator where
  signingKey : String
  issuer : String

namespace StaticJwtAuthenticator

variable (jwt : Jwt) (auth : StaticJwtAuthenticator)

def validate (now : Nat) : Validate := fun token =>
  match jwt.decode auth.signingKey auth.issuer now token with
  | .error e => .error ⟨e⟩
  | .ok claims =>
      if claims.role = Claims.roleAdmin ∨ claims.role = Claims.roleAgent then .ok claims
      else .error ⟨s!"invalid role: {claims.role}"⟩

def mint (claims : Claims) : Except AuthError String :=
  match jwt.encode auth.signingKey claims with
  | .error e => .error ⟨e⟩
  | .ok token => .ok token

variable {jwt auth} in
/-- What is minted validates until it expires. -/
theorem validate_of_mint (hjwt : jwt.Lawful) {claims : Claims} {token : String}
    (hmint : auth.mint jwt claims = .ok token) (hiss : claims.iss = auth.issuer)
    (hrole : claims.role = Claims.roleAdmin ∨ claims.role = Claims.roleAgent) {now : Nat}
    (hnow : (now : Int) ≤ claims.exp) (hexp : claims.exp < 2 ^ 63) :
    auth.validate jwt now token = .ok claims := by
  have hencode : jwt.encode auth.signingKey claims = .ok token := by
    unfold mint at hmint
    split at hmint
    · cases hmint
    · rename_i hencode
      cases hmint
      exact hencode
  have hdecode := hjwt.decode_encode auth.signingKey auth.issuer now claims token hencode hiss hnow hexp
  rw [validate, hdecode]
  exact if_pos hrole

end StaticJwtAuthenticator

end Overacp
