import LatencyRank.Json.Members
import LatencyRank.FixedWidth

/-!
The failure history of one address and its weight. A failure weighs 50 ms and a given-up attempt
500 ms more; the weight fades linearly with the time since the last failure and is gone after the
decay window.
-/

namespace LatencyRank

structure FailureRecord where
  ip : String
  failures : Nat := 0
  fastFails : Nat := 0
  /-- Successes in a row since the last failure or recovery. -/
  streak : Nat := 0
  total : Nat := 0
  /-- The time of the last failure; zero or less if none is known. -/
  lastFailure : Int := 0
  /-- Failures by the number of attempts. -/
  rate : Binary64 := .zero
deriving DecidableEq, Repr

namespace FailureRecord

def failureWeight : Nat := 50

def fastFailWeight : Nat := 500

/-- So many successes in a row forgive one failure. -/
def recoveryStreak : Nat := 3

def withRate (r : FailureRecord) : FailureRecord :=
  if r.total = 0 then r
  else { r with rate := (Binary64.ofInt r.failures).div (.ofInt r.total) }

/-- A failure at a time. It ends the streak. -/
def fail (cap : Nat) (now : Int) (r : FailureRecord) : FailureRecord :=
  withRate { r with
    failures := Unsigned.bump cap r.failures
    total := Unsigned.bump Unsigned.greatest64 r.total
    streak := 0
    lastFailure := now }

def fastFail (cap : Nat) (now : Int) (r : FailureRecord) : FailureRecord :=
  { fail cap now r with fastFails := Unsigned.bump cap r.fastFails }

/-- A success. The third in a row forgives one failure and starts a new streak. -/
def succeed (r : FailureRecord) : FailureRecord :=
  let streak := Unsigned.bump Unsigned.greatest32 r.streak
  let total := Unsigned.bump Unsigned.greatest64 r.total
  if recoveryStreak ≤ streak ∧ 0 < r.failures then
    withRate { r with failures := r.failures - 1, streak := 0, total }
  else withRate { r with streak, total }

def fullWeight (r : FailureRecord) : Nat :=
  failureWeight * r.failures + fastFailWeight * r.fastFails

/-- The weight at a time. A history without a known time does not fade. -/
def weightAt (window now : Int) (r : FailureRecord) : Int :=
  let full := r.fullWeight
  if full = 0 then 0
  else if r.lastFailure ≤ 0 then full
  else
    let elapsed := max (Signed.sub now r.lastFailure) 0
    if window ≤ 0 ∨ window ≤ elapsed then 0
    else
      let remaining := (Binary64.ofInt 1).sub ((Binary64.ofInt elapsed).div (.ofInt window))
      ((Binary64.ofInt full).mul remaining).truncate

def toJson (r : FailureRecord) : Json :=
  .object [
    ("ip", .string r.ip),
    ("failureCount", .nat r.failures),
    ("fastFailCount", .nat r.fastFails),
    ("successCount", .nat r.streak),
    ("totalAttempts", .nat r.total),
    ("lastFailureEpochMs", .integer r.lastFailure),
    ("failureRate", .real r.rate)]

def ofJson? (value : Json) : Option FailureRecord := do
  let word := Json.natUpTo? Unsigned.greatest32
  let members ← value.members? ["ip", "failureCount", "fastFailCount", "successCount",
    "totalAttempts", "lastFailureEpochMs", "failureRate"]
  let ip ← members.required "ip" Json.string?
  let failures ← members.orElse "failureCount" 0 word
  let fastFails ← members.orElse "fastFailCount" 0 word
  let streak ← members.orElse "successCount" 0 word
  let total ← members.orElse "totalAttempts" 0 (Json.natUpTo? Unsigned.greatest64)
  let lastFailure ← members.orElse "lastFailureEpochMs" 0 Json.signed?
  let rate ← members.orElse "failureRate" .zero Json.real?
  return { ip, failures, fastFails, streak, total, lastFailure, rate }

def listOfJson? (value : Json) : Option (List FailureRecord) := value.listOf? ofJson?

end FailureRecord

end LatencyRank
