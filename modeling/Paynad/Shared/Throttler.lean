import Paynad.Library.Buckets
import Paynad.Shared.Json
import Mathlib.Data.Nat.Digits.Defs

/-!
# Rate limiting

`EnvelopeThrottlerGuard` counts the requests of a window by route and by tracker. The
tracker is the address of the caller, unless it presents an `x-api-key`: then it is a
fingerprint of that key, whoever presents it and whether or not it is a credential. What
`@nestjs/throttler` lets through is given from outside.
-/

namespace Paynad

namespace Shared

structure ThrottlerSettings where
  ttlMs : ℕ
  limit : ℕ
  strictLimit : ℕ
  internalLimit : ℕ
  deriving DecidableEq, Repr

/-- The variables of the environment, converted to numbers. -/
structure ThrottlerEnv where
  rateLimitTtlMs : Option ℕ
  rateLimitLimit : Option ℕ
  rateLimitStrictLimit : Option ℕ
  rateLimitInternalLimit : Option ℕ

def throttlerSettingsFrom (env : ThrottlerEnv) : ThrottlerSettings where
  ttlMs := env.rateLimitTtlMs.getD 60000
  limit := env.rateLimitLimit.getD 120
  strictLimit := env.rateLimitStrictLimit.getD 20
  internalLimit := env.rateLimitInternalLimit.getD 1200

/-- The decorators of a limited route: none, `StrictThrottle` or `InternalThrottle`. -/
inductive Budget where
  | ordinary
  | strict
  | internal
  deriving DecidableEq, Repr

def ThrottlerSettings.limitOf (settings : ThrottlerSettings) : Budget → ℕ
  | .ordinary => settings.limit
  | .strict => settings.strictLimit
  | .internal => settings.internalLimit

structure Route where
  handler : String
  budget : Budget
  deriving DecidableEq, Repr

inductive HeaderValue where
  | text (value : String)
  | list (values : List String)
  deriving DecidableEq, Repr

abbrev Headers := List (String × HeaderValue)

structure RequestLike where
  ip : Option String
  remoteAddress : Option String
  headers : Headers
  deriving DecidableEq, Repr

def toInt32 (x : ℤ) : ℤ := x.bmod (2 ^ 32)

def digit36 (digit : ℕ) : Char :=
  "0123456789abcdefghijklmnopqrstuvwxyz".toList.getD digit '0'

def toString36 (n : ℕ) : String :=
  if n = 0 then "0" else String.ofList ((Nat.digits 36 n).reverse.map digit36)

/-- Short and stable, and neither secret nor unique. -/
def fingerprint (value : String) : String :=
  let hash := (value.toList.flatMap codeUnits).foldl
    (fun (hash : ℤ) (code : ℕ) => toInt32 (hash * 31 + code)) 0
  toString36 (hash % 2 ^ 32).toNat

/-- The key that the headers present: a text, and not the empty one. -/
def apiKeyOf (headers : Headers) : Option String :=
  match headers.lookup "x-api-key" with
  | some (.text key) => if key.length > 0 then some key else none
  | _ => none

def getTracker (request : RequestLike) : String :=
  match apiKeyOf request.headers with
  | some key => "internal:" ++ fingerprint key
  | none => (request.ip.or request.remoteAddress).getD "unknown"

/-- `EnvelopeThrottlerGuard` on the HTTP requests of a window to a route: those that are
let through, where `admits` decides for a limit on a key after the earlier ones. -/
def admitted (admits : ℕ → List (Route × String) → Route × String → Bool)
    (settings : ThrottlerSettings) (route : Route) (requests : List RequestLike) :
    List RequestLike :=
  Buckets.through (fun request => (route, getTracker request))
    (admits (settings.limitOf route.budget)) [] requests

/-- What `@nestjs/throttler` documents: a request is let through while fewer requests than
the limit have come under its key in the window. -/
def Throttles (admits : ℕ → List (Route × String) → Route × String → Bool) : Prop :=
  ∀ limit, Buckets.Fills limit (admits limit)

/-- The text of an IP address: a number in one of its notations comes first. -/
structure Address where
  text : String
  wellFormed : text.toList.head?.any (fun char => "0123456789abcdefABCDEF:".toList.contains char)
    = true

/-- A request on a connection, with `trust proxy` unset: Express takes `ip` from the
connection, and nothing in the headers changes it. -/
def requestFrom (address : Option Address) (headers : Headers) : RequestLike where
  ip := address.map Address.text
  remoteAddress := address.map Address.text
  headers := headers

/-! ## What the tracker tells apart -/

theorem toList_head?_internal (text : String) :
    ("internal:" ++ text).toList.head? = some 'i' := by
  simp

theorem head?_caller (address : Option Address) :
    ((address.map Address.text).getD "unknown").toList.head? ≠ some 'i' := by
  cases address with
  | none => decide
  | some address =>
      intro h
      have hwell := address.wellFormed
      rw [Option.map_some, Option.getD_some] at h
      rw [h] at hwell
      exact absurd hwell (by decide)

/-- Of two requests on one connection, the tracker compares the fingerprints of the keys. -/
theorem getTracker_eq_iff (address : Option Address) (headers headers' : Headers) :
    getTracker (requestFrom address headers) = getTracker (requestFrom address headers') ↔
      (apiKeyOf headers).map fingerprint = (apiKeyOf headers').map fingerprint := by
  have hor : (address.map Address.text).or (address.map Address.text) =
      address.map Address.text := Option.or_self
  unfold getTracker
  simp only [requestFrom, hor]
  cases apiKeyOf headers with
  | none =>
      cases apiKeyOf headers' with
      | none => simp
      | some key' =>
          simp only [Option.map_none, Option.map_some, reduceCtorEq, iff_false]
          intro heq
          exact head?_caller address (heq ▸ toList_head?_internal _)
  | some key =>
      cases apiKeyOf headers' with
      | none =>
          simp only [Option.map_none, Option.map_some, reduceCtorEq, iff_false]
          intro heq
          exact head?_caller address (heq.symm ▸ toList_head?_internal _)
      | some key' => simp

/-- On one route and from one address, no more requests of a window go through than the
limit if and only if nothing is limited: the limit is zero, there are no more requests than
it, or all of them present keys with one fingerprint, or none. -/
theorem admitted_le_limit_iff {admits : ℕ → List (Route × String) → Route × String → Bool}
    (hthrottler : Throttles admits) (settings : ThrottlerSettings) (route : Route)
    (address : Option Address) (requests : List Headers) :
    (admitted admits settings route (requests.map (requestFrom address))).length ≤
        settings.limitOf route.budget ↔
      settings.limitOf route.budget = 0 ∨
        requests.length ≤ settings.limitOf route.budget ∨
        ∀ headers ∈ requests, ∀ headers' ∈ requests,
          (apiKeyOf headers).map fingerprint = (apiKeyOf headers').map fingerprint := by
  rw [admitted, Buckets.length_through_le_iff (hthrottler _), List.length_map]
  simp only [List.forall_mem_map, Prod.mk.injEq, true_and, getTracker_eq_iff]

def countingStorage : ℕ → List (Route × String) → Route × String → Bool := Buckets.counting

theorem throttles_countingStorage : Throttles countingStorage := Buckets.fills_counting

def defaultSettings : ThrottlerSettings := throttlerSettingsFrom ⟨none, none, none, none⟩

def initiateRoute : Route := ⟨"PaymentsController.initiate", .strict⟩

def sampleAddress : Address := ⟨"203.0.113.7", by decide⟩

def forwardedRequests : List Headers :=
  (List.range 30).map fun n => [("x-forwarded-for", .text ("198.51.100." ++ n.repr))]

theorem admitted_le_limit_iff_forwardedRequests :
    (admitted countingStorage defaultSettings initiateRoute
      (forwardedRequests.map (requestFrom (some sampleAddress)))).length ≤ 20 := by
  refine (admitted_le_limit_iff throttles_countingStorage defaultSettings initiateRoute
    (some sampleAddress) forwardedRequests).mpr (.inr (.inr ?_))
  decide +kernel

/-- Requests that each present another key, none of them a credential. -/
def rotatedRequests : List Headers :=
  (List.range 21).map fun n => [("x-api-key", .text ("key-" ++ n.repr))]

theorem rotatedRequests_not_limited :
    (∀ headers ∈ rotatedRequests, apiKeyOf headers ≠ some "dev-internal-key-change-me") ∧
      defaultSettings.limitOf initiateRoute.budget = 20 ∧
      (admitted countingStorage defaultSettings initiateRoute
        (rotatedRequests.map (requestFrom (some sampleAddress)))).length = 21 := by
  decide +kernel

end Shared

end Paynad
