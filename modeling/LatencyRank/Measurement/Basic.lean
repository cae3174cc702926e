import LatencyRank.Json.Members

/-!
What is known of one address after a measurement, or after a look into the cache, and how its latency was
obtained. A method has a name and a penalty: the fewer stages a connection passed, the less its latency is
trusted.
-/

namespace LatencyRank

/-- The latency that stands for an address nobody reaches. -/
def deadLatency : Int := 999999

inductive Method where
  | icmp
  /-- A connection to the TLS port with a completed handshake. -/
  | tls
  | tcp443
  | tcp80
  | udp53
  | none
  /-- Served from the cache while fresh. -/
  | cached
  /-- Served from the cache while a refresh is under way. -/
  | stale
deriving DecidableEq, Repr

namespace Method

def all : List Method := [icmp, tls, tcp443, tcp80, udp53, none, cached, stale]

def name : Method → String
  | icmp => "icmp"
  | tls => "tls"
  | tcp443 => "tcp443"
  | tcp80 => "tcp80"
  | udp53 => "udp53"
  | none => "none"
  | cached => "cached"
  | stale => "stale"

def ofName? (name : String) : Option Method := all.find? fun method => method.name = name

def ofJson? (value : Json) : Option Method := value.variant?.bind ofName?

def toJson (method : Method) : Json := .string method.name

/-- What is added to a latency for want of trust. Served latencies have it in them already. -/
def penalty : Method → Int
  | icmp => 0
  | tls | tcp443 => 100
  | tcp80 => 300
  | udp53 => 500
  | none => deadLatency
  | cached | stale => 0

theorem ofName?_name (method : Method) : ofName? method.name = some method := by
  cases method <;> rfl

end Method

structure Measurement where
  ip : String
  /-- In milliseconds. -/
  latency : Int
  /-- Lost attempts, in percent. -/
  loss : Binary64
  method : Method
  /-- The first attempt failed and the others were not made. -/
  abandoned : Bool := false
deriving DecidableEq, Repr

namespace Measurement

def totalLoss : Binary64 := .ofInt 100

def dead (ip : String) : Measurement :=
  { ip, latency := deadLatency, loss := totalLoss, method := .none }

/-- Of an address given up after its first attempt. -/
def givenUp (ip : String) : Measurement := { dead ip with abandoned := true }

def isDead (m : Measurement) : Bool := decide (totalLoss ≤ m.loss ∨ deadLatency ≤ m.latency)

def toJson (m : Measurement) : Json :=
  .object [("ip", .string m.ip), ("rttMs", .integer m.latency), ("lossPercent", .real m.loss),
    ("probeMethod", m.method.toJson), ("fastFail", .bool m.abandoned)]

def ofJson? (value : Json) : Option Measurement := do
  let members ← value.members? ["ip", "rttMs", "lossPercent", "probeMethod", "fastFail"]
  let ip ← members.required "ip" Json.string?
  let latency ← members.required "rttMs" Json.signed?
  let loss ← members.required "lossPercent" Json.real?
  let method ← members.required "probeMethod" Method.ofJson?
  let abandoned ← members.orElse "fastFail" false Json.bool?
  return { ip, latency, loss, method, abandoned }

end Measurement

end LatencyRank
