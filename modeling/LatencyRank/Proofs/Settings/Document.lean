import Mathlib
import LatencyRank.Settings.Basic
import LatencyRank.Proofs.Json.Members

/-!
A configuration document whose numbers fit into their widths is read back from its text, field by
field. Settings that are normalized have nothing left to replace.
-/

namespace LatencyRank

namespace Ports

structure Fits (p : Ports) : Prop where
  tls : p.tls ≤ Unsigned.greatest16
  udp : p.udp ≤ Unsigned.greatest16
  http : p.http ≤ Unsigned.greatest16

def fields (p : Ports) : List (String × Json) :=
  [("tls", .nat p.tls), ("udp", .nat p.udp), ("http", .nat p.http)]

theorem ofJson?_toJson {p : Ports} (fits : p.Fits) : ofJson? p.toJson = some p := by
  have distinct : (p.fields.map Prod.fst).Nodup := show ["tls", "udp", "http"].Nodup by decide
  have known : p.toJson.members? ["tls", "udp", "http"] = some p.fields :=
    Json.members?_object rfl (by decide)
  apply Json.bind_of_some known
  apply Json.bind_of_some (Json.orElse_of_mem distinct (by simp [fields]) (Json.natUpTo?_nat fits.tls) _)
  apply Json.bind_of_some (Json.orElse_of_mem distinct (by simp [fields]) (Json.natUpTo?_nat fits.udp) _)
  apply Json.bind_of_some (Json.orElse_of_mem distinct (by simp [fields]) (Json.natUpTo?_nat fits.http) _)
  rfl

theorem fits_usual : ({} : Ports).Fits := ⟨by decide, by decide, by decide⟩

theorem fits_of_ofJson? {value : Json} {p : Ports} (read : ofJson? value = some p) : p.Fits := by
  unfold ofJson? at read
  obtain ⟨members, -, read⟩ := Option.bind_eq_some_iff.mp read
  obtain ⟨tls, tls', read⟩ := Option.bind_eq_some_iff.mp read
  obtain ⟨udp, udp', read⟩ := Option.bind_eq_some_iff.mp read
  obtain ⟨http, http', read⟩ := Option.bind_eq_some_iff.mp read
  cases read
  have usual := fits_usual
  exact ⟨Json.le_of_orElse_usual usual.tls tls', Json.le_of_orElse_usual usual.udp udp',
    Json.le_of_orElse_usual usual.http http'⟩

end Ports

namespace Settings

section Text

structure Fits (s : Settings) : Prop where
  attempts : s.attempts ≤ Unsigned.greatest32
  timeout : s.timeout ≤ Unsigned.greatest64
  concurrency : s.concurrency ≤ Unsigned.greatest64
  candidateLimit : s.candidateLimit ≤ Unsigned.greatest64
  freshSeconds : s.freshSeconds ≤ Unsigned.greatest64
  graceSeconds : s.graceSeconds ≤ Unsigned.greatest64
  decayDays : s.decayDays ≤ Unsigned.greatest32
  failureCap : s.failureCap ≤ Unsigned.greatest32
  shards : s.shards ≤ Unsigned.greatest64
  ports : s.ports.Fits

theorem fits_usual : ({} : Settings).Fits where
  attempts := by decide
  timeout := by decide
  concurrency := by decide
  candidateLimit := by decide
  freshSeconds := by decide
  graceSeconds := by decide
  decayDays := by decide
  failureCap := by decide
  shards := by decide
  ports := Ports.fits_usual

def fields (s : Settings) : List (String × Json) :=
  [("enabled", .bool s.enabled), ("count", .nat s.attempts), ("timeoutMs", .nat s.timeout),
    ("concurrency", .nat s.concurrency), ("maxTestIps", .nat s.candidateLimit),
    ("rttCacheTtlSeconds", .nat s.freshSeconds), ("staleGraceSeconds", .nat s.graceSeconds),
    ("enableHttpFallback", .bool s.httpFallback), ("rttStrategy", .string s.strategy.name),
    ("failureWeightPath", .optional .string s.historyPath), ("decayDays", .nat s.decayDays),
    ("maxFailureCount", .nat s.failureCap), ("cacheShards", .nat s.shards),
    ("ports", s.ports.toJson)]

theorem distinct_fields (s : Settings) : (s.fields.map Prod.fst).Nodup :=
  show fieldNames.Nodup by decide

variable {s : Settings}

theorem orElse_fields {α : Type} {name : String} {value : Json} {x : α} {decode : Json → Option α}
    (member : (name, value) ∈ s.fields) (reads : decode value = some x) (default : α) :
    Json.Members.orElse s.fields name default decode = some x :=
  Json.orElse_of_mem s.distinct_fields member reads default

theorem reads_strategy (strategy : Strategy) :
    Strategy.ofJson? (.string strategy.name) = some strategy :=
  Strategy.ofName?_name strategy

theorem reads_path (path : Option String) :
    (Json.optional .string path).optional? Json.string? = some path :=
  @Json.optional?_optional String Json.string? .string (fun _ => rfl) (fun _ same => by cases same) path

theorem ofJson?_toJson (fits : s.Fits) : ofJson? s.toJson = some s := by
  have known : s.toJson.members? fieldNames = some s.fields := Json.members?_object rfl (by decide)
  have flag (b : Bool) : (Json.bool b).bool? = some b := rfl
  -- the fields are read in the order in which they are declared
  apply Json.bind_of_some known
  apply Json.bind_of_some (orElse_fields (by simp [fields]) (flag s.enabled) _)
  apply Json.bind_of_some (orElse_fields (by simp [fields]) (Json.natUpTo?_nat fits.attempts) _)
  apply Json.bind_of_some (orElse_fields (by simp [fields]) (Json.natUpTo?_nat fits.timeout) _)
  apply Json.bind_of_some (orElse_fields (by simp [fields]) (Json.natUpTo?_nat fits.concurrency) _)
  apply Json.bind_of_some (orElse_fields (by simp [fields]) (Json.natUpTo?_nat fits.candidateLimit) _)
  apply Json.bind_of_some (orElse_fields (by simp [fields]) (Json.natUpTo?_nat fits.freshSeconds) _)
  apply Json.bind_of_some (orElse_fields (by simp [fields]) (Json.natUpTo?_nat fits.graceSeconds) _)
  apply Json.bind_of_some (orElse_fields (by simp [fields]) (flag s.httpFallback) _)
  apply Json.bind_of_some (orElse_fields (by simp [fields]) (reads_strategy s.strategy) _)
  apply Json.bind_of_some (orElse_fields (by simp [fields]) (reads_path s.historyPath) _)
  apply Json.bind_of_some (orElse_fields (by simp [fields]) (Json.natUpTo?_nat fits.decayDays) _)
  apply Json.bind_of_some (orElse_fields (by simp [fields]) (Json.natUpTo?_nat fits.failureCap) _)
  apply Json.bind_of_some (orElse_fields (by simp [fields]) (Json.natUpTo?_nat fits.shards) _)
  apply Json.bind_of_some (orElse_fields (by simp [fields]) (Ports.ofJson?_toJson fits.ports) _)
  rfl

theorem fits_of_ofJson? {value : Json} (read : ofJson? value = some s) : s.Fits := by
  unfold ofJson? at read
  obtain ⟨members, -, read⟩ := Option.bind_eq_some_iff.mp read
  obtain ⟨_, -, read⟩ := Option.bind_eq_some_iff.mp read
  obtain ⟨attempts, attempts', read⟩ := Option.bind_eq_some_iff.mp read
  obtain ⟨timeout, timeout', read⟩ := Option.bind_eq_some_iff.mp read
  obtain ⟨concurrency, concurrency', read⟩ := Option.bind_eq_some_iff.mp read
  obtain ⟨candidateLimit, candidateLimit', read⟩ := Option.bind_eq_some_iff.mp read
  obtain ⟨freshSeconds, freshSeconds', read⟩ := Option.bind_eq_some_iff.mp read
  obtain ⟨graceSeconds, graceSeconds', read⟩ := Option.bind_eq_some_iff.mp read
  obtain ⟨_, -, read⟩ := Option.bind_eq_some_iff.mp read
  obtain ⟨_, -, read⟩ := Option.bind_eq_some_iff.mp read
  obtain ⟨_, -, read⟩ := Option.bind_eq_some_iff.mp read
  obtain ⟨decayDays, decayDays', read⟩ := Option.bind_eq_some_iff.mp read
  obtain ⟨failureCap, failureCap', read⟩ := Option.bind_eq_some_iff.mp read
  obtain ⟨shards, shards', read⟩ := Option.bind_eq_some_iff.mp read
  obtain ⟨ports, ports', read⟩ := Option.bind_eq_some_iff.mp read
  cases read
  have usual := fits_usual
  exact {
    attempts := Json.le_of_orElse_usual usual.attempts attempts'
    timeout := Json.le_of_orElse_usual usual.timeout timeout'
    concurrency := Json.le_of_orElse_usual usual.concurrency concurrency'
    candidateLimit := Json.le_of_orElse_usual usual.candidateLimit candidateLimit'
    freshSeconds := Json.le_of_orElse_usual usual.freshSeconds freshSeconds'
    graceSeconds := Json.le_of_orElse_usual usual.graceSeconds graceSeconds'
    decayDays := Json.le_of_orElse_usual usual.decayDays decayDays'
    failureCap := Json.le_of_orElse_usual usual.failureCap failureCap'
    shards := Json.le_of_orElse_usual usual.shards shards'
    ports := Json.orElse_of ports' usual.ports fun _ _ => Ports.fits_of_ofJson? }

end Text

section Normal

theorem orUsual_orUsual (value usual : Nat) :
    orUsual (orUsual value usual) usual = orUsual value usual := by
  unfold orUsual
  split <;> simp_all

theorem normalized_normalized (s : Settings) : s.normalized.normalized = s.normalized := by
  simp only [normalized, orUsual_orUsual, Option.filter_filter, Bool.and_self]

variable {value usual limit : Nat} {s : Settings}

theorem orUsual_le (le : value ≤ limit) (usual' : usual ≤ limit) : orUsual value usual ≤ limit := by
  unfold orUsual
  split
  · exact usual'
  · exact le

theorem orUsual_pos (positive : 0 < usual) : 0 < orUsual value usual := by
  unfold orUsual
  split
  · exact positive
  · omega

theorem Fits.normalized (fits : s.Fits) : s.normalized.Fits where
  attempts := orUsual_le fits.attempts fits_usual.attempts
  timeout := orUsual_le fits.timeout fits_usual.timeout
  concurrency := orUsual_le fits.concurrency fits_usual.concurrency
  candidateLimit := fits.candidateLimit
  freshSeconds := fits.freshSeconds
  graceSeconds := fits.graceSeconds
  decayDays := orUsual_le fits.decayDays fits_usual.decayDays
  failureCap := orUsual_le fits.failureCap fits_usual.failureCap
  shards := orUsual_le fits.shards fits_usual.shards
  ports := fits.ports

end Normal

end Settings

namespace SettingsDocument

variable {d : SettingsDocument}

/-- The text of a document holds no decimal, so it is read as the value that was written. -/
theorem reread_toJson (d : SettingsDocument) : d.toJson.reread = d.toJson := by
  obtain ⟨ping, logging⟩ := d
  obtain ⟨enabled, attempts, timeout, concurrency, candidateLimit, freshSeconds, graceSeconds,
    httpFallback, strategy, historyPath, decayDays, failureCap, shards, ports⟩ := ping
  cases historyPath <;> rfl

def fields (d : SettingsDocument) : List (String × Json) :=
  [("ping", d.ping.toJson), ("logging", d.logging.toJson)]

theorem ofJson?_toJson (fits : d.ping.Fits) : ofJson? d.toJson = some d := by
  have distinct : (d.fields.map Prod.fst).Nodup := show ["ping", "logging"].Nodup by decide
  have known : d.toJson.members? ["ping", "logging"] = some d.fields :=
    Json.members?_object rfl (by decide)
  have level : LogSettings.ofJson? d.logging.toJson = some d.logging := by
    have single : d.logging.toJson.members? ["logLevel"] =
        some [("logLevel", .string d.logging.level)] := Json.members?_object rfl (by decide)
    apply Json.bind_of_some single
    rfl
  apply Json.bind_of_some known
  apply Json.bind_of_some (Json.orElse_of_mem distinct (by simp [fields]) (Settings.ofJson?_toJson fits) _)
  apply Json.bind_of_some (Json.orElse_of_mem distinct (by simp [fields]) level _)
  rfl

/-- A document that fits is read back from the bytes of its text. -/
theorem ofJson?_ofBytes?_pretty (fits : d.ping.Fits) :
    (Json.ofBytes? d.toJson.pretty.toUTF8).bind ofJson? = some d := by
  rw [Json.ofBytes?_pretty, Option.bind_some, reread_toJson]
  exact ofJson?_toJson fits

end SettingsDocument

end LatencyRank
