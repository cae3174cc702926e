import Mathlib
import LatencyRank.History.Record
import LatencyRank.Proofs.Json.Members

/-!
Records whose fields fit into their widths. What is read from a document fits, what happens to an
address keeps its record fitting, and a record that fits is read back from its text in every field.
-/

namespace LatencyRank

namespace FailureRecord

/-- Every field fits into its width. -/
structure Fits (r : FailureRecord) : Prop where
  failures : r.failures ≤ Unsigned.greatest32
  fastFails : r.fastFails ≤ Unsigned.greatest32
  streak : r.streak ≤ Unsigned.greatest32
  total : r.total ≤ Unsigned.greatest64
  lastFailure : Signed.InRange r.lastFailure
  rate : r.rate.IsDouble

section Changes

variable {r : FailureRecord} {cap : Nat} {now : Int}

theorem zero_inRange : Signed.InRange 0 := by decide

theorem fits_blank (ip : String) : ({ ip } : FailureRecord).Fits :=
  ⟨Nat.zero_le _, Nat.zero_le _, Nat.zero_le _, Nat.zero_le _, zero_inRange, Binary64.isDouble_zero⟩

theorem fits_withRate (fits : r.Fits) : r.withRate.Fits := by
  unfold withRate
  split
  · exact fits
  · rename_i some'
    have few : r.failures < 2 ^ 53 := Nat.lt_of_le_of_lt fits.failures (by decide)
    exact { fits with rate := Binary64.isDouble_share few (Nat.pos_of_ne_zero some') }

theorem fits_fail (fits : r.Fits) (width : cap ≤ Unsigned.greatest32) (timely : Signed.InRange now) :
    (r.fail cap now).Fits :=
  fits_withRate { fits with
    failures := (Unsigned.bump_le _ _).trans width
    total := Unsigned.bump_le _ _
    streak := Nat.zero_le _
    lastFailure := timely }

theorem fits_fastFail (fits : r.Fits) (width : cap ≤ Unsigned.greatest32)
    (timely : Signed.InRange now) : (r.fastFail cap now).Fits :=
  { fits_fail fits width timely with fastFails := (Unsigned.bump_le _ _).trans width }

theorem fits_succeed (fits : r.Fits) : r.succeed.Fits := by
  unfold succeed
  dsimp only
  split
  · exact fits_withRate { fits with
      failures := (Nat.sub_le _ _).trans fits.failures
      streak := Nat.zero_le _
      total := Unsigned.bump_le _ _ }
  · exact fits_withRate { fits with
      streak := Unsigned.bump_le _ _
      total := Unsigned.bump_le _ _ }

theorem ip_withRate (r : FailureRecord) : r.withRate.ip = r.ip := by
  unfold withRate
  split <;> rfl

theorem ip_fail (cap : Nat) (now : Int) (r : FailureRecord) : (r.fail cap now).ip = r.ip :=
  ip_withRate _

theorem ip_succeed (r : FailureRecord) : r.succeed.ip = r.ip := by
  unfold succeed
  dsimp only
  split <;> exact ip_withRate _

end Changes

section Decoding

theorem fits_of_ofJson? {value : Json} {r : FailureRecord} (read : ofJson? value = some r) : r.Fits := by
  simp only [ofJson?, Option.bind_eq_bind, Option.bind_eq_some_iff] at read
  obtain ⟨members, -, ip, -, failures, failures', fastFails, fastFails', streak, streak', total, total',
    lastFailure, lastFailure', rate, rate', same⟩ := read
  cases same
  exact {
    failures := Json.le_of_orElse failures'
    fastFails := Json.le_of_orElse fastFails'
    streak := Json.le_of_orElse streak'
    total := Json.le_of_orElse total'
    lastFailure := Json.orElse_of lastFailure' zero_inRange fun _ _ => Json.inRange_of_signed?
    rate := Json.orElse_of rate' Binary64.isDouble_zero fun _ _ => Json.isDouble_of_real? }

def fields (r : FailureRecord) : List (String × Json) :=
  [("ip", .string r.ip), ("failureCount", .nat r.failures), ("fastFailCount", .nat r.fastFails),
    ("successCount", .nat r.streak), ("totalAttempts", .nat r.total),
    ("lastFailureEpochMs", .integer r.lastFailure), ("failureRate", (Json.real r.rate).reread)]

theorem reread_toJson (r : FailureRecord) : r.toJson.reread = .object r.fields := rfl

theorem distinct_fields (r : FailureRecord) : (r.fields.map Prod.fst).Nodup :=
  show ["ip", "failureCount", "fastFailCount", "successCount", "totalAttempts",
    "lastFailureEpochMs", "failureRate"].Nodup by decide

theorem orElse_fields {α : Type} {r : FailureRecord} {name : String} {value : Json} {x : α}
    {decode : Json → Option α} (member : (name, value) ∈ r.fields) (reads : decode value = some x)
    (default : α) : Json.Members.orElse r.fields name default decode = some x :=
  Json.orElse_of_mem r.distinct_fields member reads default

theorem ofJson?_reread_toJson {r : FailureRecord} (fits : r.Fits) :
    ofJson? r.toJson.reread = some r := by
  have known : (Json.object r.fields).members? ["ip", "failureCount", "fastFailCount", "successCount",
      "totalAttempts", "lastFailureEpochMs", "failureRate"] = some r.fields :=
    Json.members?_object rfl (by decide)
  have ip : Json.Members.required r.fields "ip" Json.string? = some r.ip :=
    Json.required_of_mem r.distinct_fields
      (show ("ip", Json.string r.ip) ∈ r.fields by simp [fields]) rfl
  rw [reread_toJson]
  apply Json.bind_of_some known
  apply Json.bind_of_some ip
  apply Json.bind_of_some (orElse_fields (by simp [fields]) (Json.natUpTo?_nat fits.failures) _)
  apply Json.bind_of_some (orElse_fields (by simp [fields]) (Json.natUpTo?_nat fits.fastFails) _)
  apply Json.bind_of_some (orElse_fields (by simp [fields]) (Json.natUpTo?_nat fits.streak) _)
  apply Json.bind_of_some (orElse_fields (by simp [fields]) (Json.natUpTo?_nat fits.total) _)
  apply Json.bind_of_some (orElse_fields (by simp [fields]) (Json.signed?_integer fits.lastFailure) _)
  apply Json.bind_of_some (orElse_fields (by simp [fields]) (Json.real?_reread_real fits.rate) _)
  rfl

end Decoding

section Lists

variable {records : List FailureRecord} {value : Json}

theorem listOfJson?_eq_some : listOfJson? value = some records ↔
    ∃ items, value = .array items ∧ items.map ofJson? = records.map some := by
  unfold listOfJson? Json.listOf?
  rw [Option.bind_eq_some_iff]
  constructor
  · rintro ⟨items, shape, read⟩
    refine ⟨items, ?_, Json.mapM_eq_some.mp read⟩
    cases value <;> cases shape
    rfl
  · rintro ⟨items, rfl, read⟩
    exact ⟨items, rfl, Json.mapM_eq_some.mpr read⟩

theorem fits_of_listOfJson? (read : listOfJson? value = some records) :
    ∀ r ∈ records, r.Fits := by
  intro r member
  obtain ⟨items, -, same⟩ := listOfJson?_eq_some.mp read
  have member' : some r ∈ items.map ofJson? := by
    rw [same]
    exact List.mem_map_of_mem member
  obtain ⟨item, -, decoded⟩ := List.mem_map.mp member'
  exact fits_of_ofJson? decoded

theorem listOfJson?_reread (fits : ∀ r ∈ records, r.Fits) :
    listOfJson? (Json.array (records.map toJson)).reread = some records := by
  refine listOfJson?_eq_some.mpr ⟨_, rfl, ?_⟩
  rw [Json.rereadItems_eq, List.map_map, List.map_map]
  exact List.map_congr_left fun r member => ofJson?_reread_toJson (fits r member)

end Lists

end FailureRecord

end LatencyRank
