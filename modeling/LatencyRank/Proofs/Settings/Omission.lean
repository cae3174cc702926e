import Mathlib
import LatencyRank.Proofs.Settings.Document

/-!
A configuration document need not be written in full. At every level any of the known fields may be
left out, the others may stand in any order, and fields of other names may stand among them with any
values and as often as they like. What is written is read, and what is left out has the value of the
document that nobody wrote.
-/

namespace LatencyRank

namespace Json

section Selection

def field? (name : String) : Json → Option Json
  | .object fields => fields.lookup name
  | _ => none

/-- What becomes of a field: it is made of the value under its name, or it is as usual. -/
def fieldOr {α : Type} (value : Json) (name : String) (made : Json → α) (usual : α) : α :=
  match value.field? name with
  | some written => made written
  | none => usual

/-- An object that holds some of a record's own fields, in any order, among fields of other names. -/
def Selects (own : Members) (value : Json) : Prop :=
  ∃ fields chosen : Members, value = .object fields ∧ chosen.Sublist own ∧
    (fields.filter fun field => field.1 ∈ own.map Prod.fst).Perm chosen

variable {α : Type} {own : Members} {value : Json}

theorem selects_of_subset {fields : Members}
    (once : ((fields.filter fun field => field.1 ∈ own.map Prod.fst).map Prod.fst).Nodup)
    (kept : ∀ field ∈ fields, field.1 ∈ own.map Prod.fst → field ∈ own) :
    Selects own (.object fields) := by
  have subset : (fields.filter fun field => field.1 ∈ own.map Prod.fst) ⊆ own := by
    intro field member
    obtain ⟨inside, known⟩ := List.mem_filter.mp member
    exact kept field inside (of_decide_eq_true known)
  obtain ⟨chosen, arranged, choice⟩ := List.subperm_of_subset (.of_map _ once) subset
  exact ⟨fields, chosen, rfl, choice, arranged.symm⟩

/-- What is read of a selection: members of the record that hold what is written under each of its
names. -/
structure Picked (own : Members) (value : Json) (members : Members) : Prop where
  distinct : (own.map Prod.fst).Nodup
  kept : members ⊆ own
  same : ∀ name ∈ own.map Prod.fst, members.lookup name = value.field? name

theorem members?_of_selects (distinct : (own.map Prod.fst).Nodup) (selects : Selects own value) :
    ∃ members, value.members? (own.map Prod.fst) = some members ∧ Picked own value members := by
  obtain ⟨fields, chosen, rfl, choice, arranged⟩ := selects
  -- no name is twice in the record, so none is in what was chosen of it
  have once : ((fields.filter fun field => field.1 ∈ own.map Prod.fst).map Prod.fst).Nodup :=
    (arranged.map Prod.fst).nodup_iff.mpr (distinct.sublist (choice.map Prod.fst))
  refine ⟨_, if_pos once, distinct, fun field member => choice.subset (arranged.subset member), ?_⟩
  intro name known
  exact Keyed.lookup_filter (fun key => key ∈ own.map Prod.fst) (decide_eq_true known) fields

theorem Picked.orElse_made {members : Members} (picked : Picked own value members) {name : String}
    {written : Json} (member : (name, written) ∈ own) {decode : Json → Option α} (made : Json → α)
    (reads : decode written = some (made written)) (usual : α) :
    members.orElse name usual decode = some (value.fieldOr name made usual) := by
  unfold Members.orElse fieldOr
  rw [← picked.same name (List.mem_map_of_mem member)]
  cases found : members.lookup name with
  | none => rfl
  | some written' =>
    -- the record has one member of this name, so this is what was found
    have itself := Keyed.lookup_of_mem picked.distinct member
    rw [Keyed.lookup_of_mem picked.distinct (picked.kept (Keyed.mem_of_lookup found))] at itself
    cases itself
    exact reads

theorem Picked.orElse {members : Members} (picked : Picked own value members) {name : String}
    {written : Json} (member : (name, written) ∈ own) {decode : Json → Option α} {x : α}
    (reads : decode written = some x) (usual : α) :
    members.orElse name usual decode = some (value.fieldOr name (fun _ => x) usual) :=
  picked.orElse_made member (fun _ => x) reads usual

theorem rereadFields_eq (fields : Members) :
    rereadFields fields = fields.map (Prod.map id reread) := by
  induction fields with
  | nil => rfl
  | cons field rest ih => rw [rereadFields, ih, List.map_cons]; rfl

theorem field?_reread (name : String) (value : Json) :
    value.reread.field? name = (value.field? name).map reread := by
  cases value with
  | object fields =>
    change (rereadFields fields).lookup name = (fields.lookup name).map reread
    rw [rereadFields_eq]
    induction fields with
    | nil => rfl
    | cons field rest ih =>
      rw [List.map_cons, Keyed.lookup_entry, Keyed.lookup_entry, ih]
      change (if name = field.1 then _ else _) = _
      split <;> rfl
  | _ => rfl

theorem fieldOr_reread (name : String) {made : Json → α} (same : ∀ value, made value.reread = made value)
    (usual : α) : value.reread.fieldOr name made usual = value.fieldOr name made usual := by
  unfold fieldOr
  rw [field?_reread]
  cases value.field? name with
  | none => rfl
  | some written => exact same written

theorem Selects.reread (selects : Selects own value) :
    Selects (own.map (Prod.map id Json.reread)) value.reread := by
  obtain ⟨fields, chosen, rfl, choice, arranged⟩ := selects
  have names : (own.map (Prod.map id Json.reread)).map Prod.fst = own.map Prod.fst := List.map_map
  refine ⟨fields.map (Prod.map id Json.reread), chosen.map (Prod.map id Json.reread),
    congrArg object (rereadFields_eq fields), choice.map _, ?_⟩
  rw [names, List.filter_map]
  exact arranged.map _

end Selection

end Json

def usualDocument : SettingsDocument := {}

namespace Ports

variable {p : Ports} {value : Json}

def Writes (p : Ports) (value : Json) : Prop := value.Selects p.fields

def cutTo (p : Ports) (value : Json) : Ports where
  tls := value.fieldOr "tls" (fun _ => p.tls) usualDocument.ping.ports.tls
  udp := value.fieldOr "udp" (fun _ => p.udp) usualDocument.ping.ports.udp
  http := value.fieldOr "http" (fun _ => p.http) usualDocument.ping.ports.http

theorem ofJson?_of_writes (fits : p.Fits) (writes : p.Writes value) :
    ofJson? value = some (p.cutTo value) := by
  have distinct : (p.fields.map Prod.fst).Nodup := show ["tls", "udp", "http"].Nodup by decide
  obtain ⟨members, known, picked⟩ := Json.members?_of_selects distinct writes
  apply Json.bind_of_some known
  apply Json.bind_of_some (picked.orElse (by simp [fields]) (Json.natUpTo?_nat fits.tls) _)
  apply Json.bind_of_some (picked.orElse (by simp [fields]) (Json.natUpTo?_nat fits.udp) _)
  apply Json.bind_of_some (picked.orElse (by simp [fields]) (Json.natUpTo?_nat fits.http) _)
  rfl

theorem writes_reread (writes : p.Writes value) : p.Writes value.reread := writes.reread

theorem cutTo_reread (p : Ports) (value : Json) : p.cutTo value.reread = p.cutTo value := by
  simp only [cutTo, Json.fieldOr_reread, implies_true]

end Ports

namespace Settings

variable {s : Settings} {value ports : Json}

def fieldsWith (s : Settings) (ports : Json) : List (String × Json) :=
  s.fields.dropLast ++ [("ports", ports)]

/-- An object that holds some of the settings, and of the ports some or none. -/
def Writes (s : Settings) (value : Json) : Prop :=
  ∃ ports, s.ports.Writes ports ∧ value.Selects (s.fieldsWith ports)

def cutTo (s : Settings) (value : Json) : Settings where
  enabled := value.fieldOr "enabled" (fun _ => s.enabled) usualDocument.ping.enabled
  attempts := value.fieldOr "count" (fun _ => s.attempts) usualDocument.ping.attempts
  timeout := value.fieldOr "timeoutMs" (fun _ => s.timeout) usualDocument.ping.timeout
  concurrency := value.fieldOr "concurrency" (fun _ => s.concurrency) usualDocument.ping.concurrency
  candidateLimit :=
    value.fieldOr "maxTestIps" (fun _ => s.candidateLimit) usualDocument.ping.candidateLimit
  freshSeconds :=
    value.fieldOr "rttCacheTtlSeconds" (fun _ => s.freshSeconds) usualDocument.ping.freshSeconds
  graceSeconds :=
    value.fieldOr "staleGraceSeconds" (fun _ => s.graceSeconds) usualDocument.ping.graceSeconds
  httpFallback :=
    value.fieldOr "enableHttpFallback" (fun _ => s.httpFallback) usualDocument.ping.httpFallback
  strategy := value.fieldOr "rttStrategy" (fun _ => s.strategy) usualDocument.ping.strategy
  historyPath :=
    value.fieldOr "failureWeightPath" (fun _ => s.historyPath) usualDocument.ping.historyPath
  decayDays := value.fieldOr "decayDays" (fun _ => s.decayDays) usualDocument.ping.decayDays
  failureCap := value.fieldOr "maxFailureCount" (fun _ => s.failureCap) usualDocument.ping.failureCap
  shards := value.fieldOr "cacheShards" (fun _ => s.shards) usualDocument.ping.shards
  ports := value.fieldOr "ports" s.ports.cutTo usualDocument.ping.ports

theorem ofJson?_of_writes (fits : s.Fits) (writes : s.Writes value) :
    ofJson? value = some (s.cutTo value) := by
  obtain ⟨ports, some', selects⟩ := writes
  have distinct : ((s.fieldsWith ports).map Prod.fst).Nodup := show fieldNames.Nodup by decide
  obtain ⟨members, known, picked⟩ := Json.members?_of_selects distinct selects
  have flag (b : Bool) : (Json.bool b).bool? = some b := rfl
  have ports' := Ports.ofJson?_of_writes fits.ports some'
  -- as in a full document, but each field may be missing
  apply Json.bind_of_some known
  apply Json.bind_of_some (picked.orElse (by simp [fieldsWith, fields]) (flag s.enabled) _)
  apply Json.bind_of_some (picked.orElse (by simp [fieldsWith, fields]) (Json.natUpTo?_nat fits.attempts) _)
  apply Json.bind_of_some (picked.orElse (by simp [fieldsWith, fields]) (Json.natUpTo?_nat fits.timeout) _)
  apply Json.bind_of_some
    (picked.orElse (by simp [fieldsWith, fields]) (Json.natUpTo?_nat fits.concurrency) _)
  apply Json.bind_of_some
    (picked.orElse (by simp [fieldsWith, fields]) (Json.natUpTo?_nat fits.candidateLimit) _)
  apply Json.bind_of_some
    (picked.orElse (by simp [fieldsWith, fields]) (Json.natUpTo?_nat fits.freshSeconds) _)
  apply Json.bind_of_some
    (picked.orElse (by simp [fieldsWith, fields]) (Json.natUpTo?_nat fits.graceSeconds) _)
  apply Json.bind_of_some (picked.orElse (by simp [fieldsWith, fields]) (flag s.httpFallback) _)
  apply Json.bind_of_some (picked.orElse (by simp [fieldsWith, fields]) (reads_strategy s.strategy) _)
  apply Json.bind_of_some (picked.orElse (by simp [fieldsWith, fields]) (reads_path s.historyPath) _)
  apply Json.bind_of_some (picked.orElse (by simp [fieldsWith, fields]) (Json.natUpTo?_nat fits.decayDays) _)
  apply Json.bind_of_some (picked.orElse (by simp [fieldsWith, fields]) (Json.natUpTo?_nat fits.failureCap) _)
  apply Json.bind_of_some (picked.orElse (by simp [fieldsWith, fields]) (Json.natUpTo?_nat fits.shards) _)
  apply Json.bind_of_some (picked.orElse_made (by simp [fieldsWith, fields]) s.ports.cutTo ports' _)
  rfl

theorem reread_fieldsWith (s : Settings) (ports : Json) :
    (s.fieldsWith ports).map (Prod.map id Json.reread) = s.fieldsWith ports.reread := by
  unfold fieldsWith fields
  cases s.historyPath <;> rfl

theorem writes_reread (writes : s.Writes value) : s.Writes value.reread := by
  obtain ⟨ports, some', selects⟩ := writes
  exact ⟨ports.reread, Ports.writes_reread some', reread_fieldsWith s ports ▸ selects.reread⟩

theorem cutTo_reread (s : Settings) (value : Json) : s.cutTo value.reread = s.cutTo value := by
  simp only [cutTo, Json.fieldOr_reread, Ports.cutTo_reread, implies_true]

end Settings

namespace LogSettings

variable {s : LogSettings} {value : Json}

def fields (s : LogSettings) : List (String × Json) := [("logLevel", .string s.level)]

def Writes (s : LogSettings) (value : Json) : Prop := value.Selects s.fields

def cutTo (s : LogSettings) (value : Json) : LogSettings where
  level := value.fieldOr "logLevel" (fun _ => s.level) usualDocument.logging.level

theorem ofJson?_of_writes (writes : s.Writes value) : ofJson? value = some (s.cutTo value) := by
  have distinct : (s.fields.map Prod.fst).Nodup := List.nodup_singleton _
  have text : (Json.string s.level).string? = some s.level := rfl
  obtain ⟨members, known, picked⟩ := Json.members?_of_selects distinct writes
  apply Json.bind_of_some known
  apply Json.bind_of_some (picked.orElse (by simp [fields]) text _)
  rfl

theorem writes_reread (writes : s.Writes value) : s.Writes value.reread := writes.reread

theorem cutTo_reread (s : LogSettings) (value : Json) : s.cutTo value.reread = s.cutTo value := by
  simp only [cutTo, Json.fieldOr_reread, implies_true]

end LogSettings

namespace SettingsDocument

variable {d : SettingsDocument} {value : Json}

/-- An object that holds some of a document: of each section some fields, or nothing. -/
def Writes (d : SettingsDocument) (value : Json) : Prop :=
  ∃ ping logging, d.ping.Writes ping ∧ d.logging.Writes logging ∧
    value.Selects [("ping", ping), ("logging", logging)]

/-- The document with what is written, and with the usual values for what is left out. -/
def cutTo (d : SettingsDocument) (value : Json) : SettingsDocument where
  ping := value.fieldOr "ping" d.ping.cutTo usualDocument.ping
  logging := value.fieldOr "logging" d.logging.cutTo usualDocument.logging

theorem ofJson?_of_writes (fits : d.ping.Fits) (writes : d.Writes value) :
    ofJson? value = some (d.cutTo value) := by
  obtain ⟨ping, logging, some', level, selects⟩ := writes
  have distinct : (List.map Prod.fst [("ping", ping), ("logging", logging)]).Nodup :=
    show ["ping", "logging"].Nodup by decide
  obtain ⟨members, known, picked⟩ := Json.members?_of_selects distinct selects
  apply Json.bind_of_some known
  apply Json.bind_of_some
    (picked.orElse_made (by simp) d.ping.cutTo (Settings.ofJson?_of_writes fits some') _)
  apply Json.bind_of_some
    (picked.orElse_made (by simp) d.logging.cutTo (LogSettings.ofJson?_of_writes level) _)
  rfl

theorem writes_reread (writes : d.Writes value) : d.Writes value.reread := by
  obtain ⟨ping, logging, some', level, selects⟩ := writes
  exact ⟨ping.reread, logging.reread, Settings.writes_reread some', LogSettings.writes_reread level,
    selects.reread⟩

theorem cutTo_reread (d : SettingsDocument) (value : Json) : d.cutTo value.reread = d.cutTo value := by
  simp only [cutTo, Json.fieldOr_reread, Settings.cutTo_reread, LogSettings.cutTo_reread, implies_true]

/-- A document of which some fields are written, at any level and in any order and among any others, is
read with those fields and the usual values for the rest; so is its text. -/
theorem partial_document (fits : d.ping.Fits) (writes : d.Writes value) :
    ofJson? value = some (d.cutTo value) ∧
      (Json.ofBytes? value.pretty.toUTF8).bind ofJson? = some (d.cutTo value) := by
  refine ⟨ofJson?_of_writes fits writes, ?_⟩
  rw [Json.ofBytes?_pretty, Option.bind_some, ofJson?_of_writes fits (writes_reread writes), cutTo_reread]

/-- A written document loses what it does not say: the attempts and a port. Its order and the strange
fields do not matter. -/
theorem partial_document_scattered :
    let d : SettingsDocument := {
      ping := { concurrency := 2, strategy := .minimum, attempts := 9, ports := { tls := 8443, udp := 5353 } }
      logging := { level := "debug" } }
    let ports : Json := .object [("quic", .nat 443), ("udp", .nat 5353), ("quic", .null)]
    let ping : Json := .object [("rttStrategy", .string "min"), ("ports", ports), ("tls", .nat 1),
      ("concurrency", .nat 2)]
    let logging : Json := .object [("logLevel", .string "debug")]
    let value : Json := .object [("count", .array [.object [("count", .decimal ⟨true, 1, 300⟩)]]),
      ("logging", logging), ("ping", ping), ("count", .nat 9)]
    let read : SettingsDocument := {
      ping := { concurrency := 2, strategy := .minimum, ports := { udp := 5353 } }
      logging := { level := "debug" } }
    d.ping.Fits ∧ d.Writes value ∧ ofJson? value = some read ∧
      (Json.ofBytes? value.pretty.toUTF8).bind ofJson? = some read := by
  intro d ports ping logging value read
  have fits : d.ping.Fits :=
    ⟨by decide, by decide, by decide, by decide, by decide, by decide, by decide, by decide, by decide,
      by decide, by decide, by decide⟩
  have ports' : d.ping.ports.Writes ports :=
    Json.selects_of_subset (by decide) (by simp [d, Ports.fields])
  have ping' : d.ping.Writes ping :=
    ⟨ports, ports', Json.selects_of_subset (by decide)
      (by simp [d, Settings.fieldsWith, Settings.fields, Strategy.name])⟩
  have logging' : d.logging.Writes logging :=
    Json.selects_of_subset (by decide) (by simp [d, LogSettings.fields])
  have writes : d.Writes value :=
    ⟨ping, logging, ping', logging', Json.selects_of_subset (by decide) (by simp)⟩
  have cut : d.cutTo value = read := by decide
  exact ⟨fits, writes, cut ▸ partial_document fits writes⟩

end SettingsDocument

end LatencyRank
