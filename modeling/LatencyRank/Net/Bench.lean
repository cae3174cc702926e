import LatencyRank.Net.Address
import LatencyRank.Net.BufferPool
import LatencyRank.Net.Protocol
import LatencyRank.Probe.Script

/-!
Probing in stages, against ends on the local host. The TLS port comes first, and an address that
takes the connection but fails the handshake is not tried further. Then come a DNS query and, if
wanted, the plain web port.
-/

namespace LatencyRank

inductive StreamEnd where
  | closed
  /-- Takes connections and never answers. -/
  | silent
  /-- Takes connections and closes them once something was sent. -/
  | plain
  | garbage
  | tls
deriving DecidableEq, Repr

inductive DatagramEnd where
  | closed
  | silent
  | echo
  | reply (bytes : List UInt8)
deriving DecidableEq, Repr

/-- The local host. On a sealed one there are no sockets: nothing can listen or connect. -/
structure Host where
  isSealed : Bool
deriving DecidableEq, Repr

structure Bench where
  host : Host
  tls : StreamEnd
  udp : DatagramEnd
  http : StreamEnd
  httpFallback : Bool
deriving DecidableEq, Repr

namespace Bench

/-- A datagram port stays closed while a socket of the bench reserves it, which a sealed host does
not grant. -/
def canStand (b : Bench) : Bool := !b.host.isSealed || decide (b.udp ≠ .closed)

/-- What the ends saw during a probe, and the prober's buffers after it. -/
structure Trace where
  /-- The names that the TLS end was sent, nothing for a client that sent none. -/
  names : List (Option String) := []
  /-- The datagrams that an answering end got. -/
  queries : List (List UInt8) := []
  pool : BufferPool := {}

def refused : String := "Connection refused (os error 111)"

/-- Connects to a stream end of an address. Only the plain local address has ends. -/
def connect (b : Bench) (address : Address) (stage : Stage) (listener : StreamEnd) :
    Except ProbeError Unit :=
  if b.host.isSealed ∨ address ≠ .localhost ∨ listener = .closed then .error (.connect stage refused)
  else .ok ()

def handshake (b : Bench) (domain : String) (t : Trace) : Except ProbeError Unit × Trace :=
  match b.tls with
  | .tls => (.ok (), { t with names := t.names ++ [ServerName.sent? domain] })
  | .silent => (.error (.timeout .tls), t)
  | _ => (.error (.handshake "unexpected end of the handshake"), t)

def exchange (b : Bench) (address : Address) (t : Trace) : Except ProbeError Unit × Trace :=
  let seen := { t with queries := t.queries ++ [DnsProbe.query] }
  let checked (bytes : List UInt8) := DnsProbe.check (bytes.take Buffer.length)
  if address ≠ .localhost then (.error (.datagram refused), t)
  else match b.udp with
    | .closed => (.error (.datagram refused), t)
    | .silent => (.error (.timeout .udp53), t)
    | .echo => (checked DnsProbe.query, seen)
    | .reply bytes => (checked bytes, seen)

/-- The DNS stage. A buffer is held from the moment the socket is there until the exchange is over. -/
def query (b : Bench) (address : Address) (t : Trace) : Except ProbeError Unit × Trace :=
  if b.host.isSealed then (.error (.datagram "no socket"), t)
  else
    let (buffer, pool) := t.pool.acquire
    let (outcome, t) := b.exchange address { t with pool }
    (outcome, { t with pool := t.pool.release buffer })

/-- One probe. No time passes between local ends. -/
def probe (b : Bench) (ip domain : String) (t : Trace) : Except ProbeError Sample × Trace :=
  match Address.ofString? (Text.trim ip) with
  | none => (.error (.invalidAddress ip), t)
  | some address =>
    match b.connect address .tcp443 b.tls with
    | .ok () =>
      let (outcome, t) := b.handshake domain t
      (outcome.map fun _ => ⟨0, .tls⟩, t)
    | .error _ =>
      match b.query address t with
      | (.ok (), t) => (.ok ⟨0, .udp53⟩, t)
      | (.error _, t) =>
        match if b.httpFallback then b.connect address .tcp80 b.http else .error .allStagesFailed with
        | .ok () => (.ok ⟨0, .tcp80⟩, t)
        | .error _ => (.error .allStagesFailed, t)

/-- Probes one target after the other. Each answer comes with what was seen since the one before. -/
def probeAll (b : Bench) : List (String × String) → BufferPool →
    List (Except ProbeError Sample × Trace)
  | [], _ => []
  | (ip, domain) :: rest, pool =>
    let answer := b.probe ip domain { pool }
    answer :: b.probeAll rest answer.2.pool

end Bench

end LatencyRank
