import LatencyRank.Text.Basic

/-!
What a probe says to the other side and what can go wrong: the datagram that asks a name server for any
answer, and what counts as one; the name that a TLS client sends to its server. A domain that is no DNS
name is not sent: the address takes its place, and addresses are never sent.
-/

namespace LatencyRank

/-- A step of a probe that can fail on its own, by its name. -/
structure Stage where
  name : String
deriving DecidableEq, Repr

namespace Stage

def tcp443 : Stage := ⟨"tcp443"⟩

def tls : Stage := ⟨"tls"⟩

def udp53 : Stage := ⟨"udp53"⟩

def tcp80 : Stage := ⟨"tcp80"⟩

end Stage

structure ReplyFault where
  text : String
deriving DecidableEq, Repr

namespace ReplyFault

def tooShort : ReplyFault := ⟨"shorter than dns header"⟩

def otherTransaction : ReplyFault := ⟨"transaction id mismatch"⟩

end ReplyFault

/-- The texts of the system's own errors are passed on as they are. -/
inductive ProbeError where
  | invalidAddress (text : String)
  | timeout (stage : Stage)
  | connect (stage : Stage) (cause : String)
  | handshake (cause : String)
  | datagram (cause : String)
  | badReply (fault : ReplyFault)
  | allStagesFailed
deriving DecidableEq, Repr

namespace ProbeError

def message : ProbeError → String
  | invalidAddress text => "invalid ip address: " ++ text
  | timeout stage => stage.name ++ " timed out"
  | connect stage cause => stage.name ++ " connect failed: " ++ cause
  | handshake cause => "tls handshake failed: " ++ cause
  | datagram cause => "udp exchange failed: " ++ cause
  | badReply fault => "unexpected dns reply: " ++ fault.text
  | allStagesFailed => "all probe stages failed"

def cause : ProbeError → Option String
  | connect _ cause => some cause
  | handshake cause => some cause
  | datagram cause => some cause
  | _ => none

end ProbeError

namespace DnsProbe

/-- Asks for the address of `www.google.com`, as transaction zero. -/
def query : List UInt8 :=
  [0x00, 0x00, 0x01, 0x00, 0x00, 0x01, 0x00, 0x00, 0x00, 0x00, 0x00, 0x00]
    ++ [0x03, 0x77, 0x77, 0x77, 0x06, 0x67, 0x6f, 0x6f, 0x67, 0x6c, 0x65]
    ++ [0x03, 0x63, 0x6f, 0x6d, 0x00]
    ++ [0x00, 0x01, 0x00, 0x01]

def headerLength : Nat := 12

/-- An answer has a whole header and the transaction of the query. -/
def check (reply : List UInt8) : Except ProbeError Unit :=
  if reply.length < headerLength then .error (.badReply .tooShort)
  else if reply.take 2 ≠ query.take 2 then .error (.badReply .otherTransaction)
  else .ok ()

end DnsProbe

namespace ServerName

def isNameChar (c : Char) : Bool := c.isAlphanum || c == '-' || c == '_'

/-- Up to 63 letters, digits, underscores and hyphens, with no hyphen at either end. -/
def isLabel (label : List Char) : Bool :=
  !label.isEmpty && decide (label.length ≤ 63) && label.all isNameChar
    && label.head? != some '-' && label.getLast? != some '-'

/-- At most 253 characters, labels between dots, the last of which is no number. -/
def isDnsName (name : List Char) : Bool :=
  let labels := name.splitOn '.'
  decide (name.length ≤ 253) && labels.all isLabel
    && (labels.getLast?.any fun label => !label.all Char.isDigit)

/-- The name that is sent for a domain, in lower case; white space around it and dots behind it do
not count. -/
def sent? (domain : String) : Option String :=
  let name := Text.dropEnd (· == '.') (Text.trim domain).toList
  if isDnsName name then some (String.ofList (name.map Char.toLower)) else none

end ServerName

end LatencyRank
