import LatencyRank.FixedWidth
import LatencyRank.Json.Members
import LatencyRank.Text.Basic

/-!
The settings of a ranker, and the whole configuration document with the log level. A field left out of a
document takes the reader's own default for it, which is written apart from the default of the record.
Reading keeps what is written; `normalized` then replaces the zeros that would make no sense.
-/

namespace LatencyRank

inductive Strategy where
  | average
  | minimum
deriving DecidableEq, Repr

namespace Strategy

def name : Strategy → String
  | average => "avg"
  | minimum => "min"

def ofName? (name : String) : Option Strategy :=
  [average, minimum].find? fun strategy => strategy.name = name

def ofJson? (value : Json) : Option Strategy := value.variant?.bind ofName?

theorem ofName?_name (strategy : Strategy) : ofName? strategy.name = some strategy := by
  cases strategy <;> rfl

end Strategy

structure Ports where
  tls : Nat := 443
  udp : Nat := 53
  http : Nat := 80
deriving DecidableEq, Repr

namespace Ports

def toJson (p : Ports) : Json :=
  .object [("tls", .nat p.tls), ("udp", .nat p.udp), ("http", .nat p.http)]

def ofJson? (value : Json) : Option Ports := do
  let port := Json.natUpTo? Unsigned.greatest16
  let members ← value.members? ["tls", "udp", "http"]
  let tls ← members.orElse "tls" 443 port
  let udp ← members.orElse "udp" 53 port
  let http ← members.orElse "http" 80 port
  return { tls, udp, http }

end Ports

structure Settings where
  /-- For the caller: whether it should rank at all. -/
  enabled : Bool := true
  attempts : Nat := 3
  /-- The time of one stage, in milliseconds. -/
  timeout : Nat := 800
  /-- How many addresses one ranking probes at a time. -/
  concurrency : Nat := 8
  /-- How many candidates are ranked; zero means all. -/
  candidateLimit : Nat := 0
  /-- How long a measurement is fresh before its quality is weighed, in seconds; zero turns the
  cache off. -/
  freshSeconds : Nat := 300
  /-- How long a measurement may still be served once it is stale, in seconds. -/
  graceSeconds : Nat := 30
  /-- Whether the plain web port is tried last. -/
  httpFallback : Bool := false
  strategy : Strategy := .average
  /-- The file of the failure histories; without one they live in memory. -/
  historyPath : Option String := none
  /-- The days after which a failure weighs nothing. -/
  decayDays : Nat := 7
  failureCap : Nat := 100
  shards : Nat := 32
  ports : Ports := {}
deriving DecidableEq, Repr

namespace Settings

def fieldNames : List String :=
  ["enabled", "count", "timeoutMs", "concurrency", "maxTestIps", "rttCacheTtlSeconds",
   "staleGraceSeconds", "enableHttpFallback", "rttStrategy", "failureWeightPath", "decayDays",
   "maxFailureCount", "cacheShards", "ports"]

def toJson (s : Settings) : Json :=
  .object [
    ("enabled", .bool s.enabled),
    ("count", .nat s.attempts),
    ("timeoutMs", .nat s.timeout),
    ("concurrency", .nat s.concurrency),
    ("maxTestIps", .nat s.candidateLimit),
    ("rttCacheTtlSeconds", .nat s.freshSeconds),
    ("staleGraceSeconds", .nat s.graceSeconds),
    ("enableHttpFallback", .bool s.httpFallback),
    ("rttStrategy", .string s.strategy.name),
    ("failureWeightPath", .optional .string s.historyPath),
    ("decayDays", .nat s.decayDays),
    ("maxFailureCount", .nat s.failureCap),
    ("cacheShards", .nat s.shards),
    ("ports", s.ports.toJson)]

def ofJson? (value : Json) : Option Settings := do
  let word := Json.natUpTo? Unsigned.greatest32
  let long := Json.natUpTo? Unsigned.greatest64
  let members ← value.members? fieldNames
  let enabled ← members.orElse "enabled" true Json.bool?
  let attempts ← members.orElse "count" 3 word
  let timeout ← members.orElse "timeoutMs" 800 long
  let concurrency ← members.orElse "concurrency" 8 long
  let candidateLimit ← members.orElse "maxTestIps" 0 long
  let freshSeconds ← members.orElse "rttCacheTtlSeconds" 300 long
  let graceSeconds ← members.orElse "staleGraceSeconds" 30 long
  let httpFallback ← members.orElse "enableHttpFallback" false Json.bool?
  let strategy ← members.orElse "rttStrategy" .average Strategy.ofJson?
  let historyPath ← members.orElse "failureWeightPath" none (Json.optional? Json.string?)
  let decayDays ← members.orElse "decayDays" 7 word
  let failureCap ← members.orElse "maxFailureCount" 100 word
  let shards ← members.orElse "cacheShards" 32 long
  let ports ← members.orElse "ports" {} Ports.ofJson?
  return {
    enabled, attempts, timeout, concurrency, candidateLimit, freshSeconds, graceSeconds,
    httpFallback, strategy, historyPath, decayDays, failureCap, shards, ports }

def orUsual (value usual : Nat) : Nat := if value = 0 then usual else value

/-- Zeros that mean nothing become the defaults and a blank path becomes none. A zero limit of
candidates or a zero time in the cache has a meaning and stays. -/
def normalized (s : Settings) : Settings :=
  let usual : Settings := {}
  { s with
    attempts := orUsual s.attempts usual.attempts
    timeout := orUsual s.timeout usual.timeout
    concurrency := orUsual s.concurrency usual.concurrency
    decayDays := orUsual s.decayDays usual.decayDays
    failureCap := orUsual s.failureCap usual.failureCap
    shards := orUsual s.shards usual.shards
    historyPath := s.historyPath.filter fun path => Text.trim path ≠ "" }

def decayWindow (s : Settings) : Int := s.decayDays * (24 * 60 * 60 * 1000)

/-- Seconds past the signed range wrap before they become milliseconds. -/
def milliseconds (seconds : Nat) : Int := Signed.mul (Signed.ofUnsigned seconds) 1000

def grace (s : Settings) : Int := milliseconds s.graceSeconds

/-- How long a measurement of middling quality is fresh. -/
def baseLifetime (s : Settings) : Int := milliseconds s.freshSeconds

def usesCache (s : Settings) : Bool := decide (0 < s.freshSeconds)

end Settings

structure LogSettings where
  level : String := "info"
deriving DecidableEq, Repr

namespace LogSettings

def toJson (s : LogSettings) : Json := .object [("logLevel", .string s.level)]

def ofJson? (value : Json) : Option LogSettings := do
  let members ← value.members? ["logLevel"]
  let level ← members.orElse "logLevel" "info" Json.string?
  return { level }

end LogSettings

structure SettingsDocument where
  ping : Settings := {}
  logging : LogSettings := {}
deriving DecidableEq, Repr

namespace SettingsDocument

def toJson (d : SettingsDocument) : Json :=
  .object [("ping", d.ping.toJson), ("logging", d.logging.toJson)]

def ofJson? (value : Json) : Option SettingsDocument := do
  let members ← value.members? ["ping", "logging"]
  let ping ← members.orElse "ping" {} Settings.ofJson?
  let logging ← members.orElse "logging" {} LogSettings.ofJson?
  return { ping, logging }

def effective (d : SettingsDocument) : Settings := d.ping.normalized

end SettingsDocument

end LatencyRank
