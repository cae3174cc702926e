import Mathlib
import LatencyRank.Proofs.Ranker.Accounts
import LatencyRank.Proofs.Ranker.Permits
import LatencyRank.Proofs.Ranker.Repertoire

/-!
What a ranking by itself leaves in the histories, and when. Each of its jobs enters its measurement
once; whatever the order, the record of an address is the one that it began with and this one entry.
-/

namespace LatencyRank

namespace Ranker

open Prober

variable {σ : Type} {r : Ranker σ} {base c n m : Nat} {domain : String} {act : Act σ}
  {outcomes : String → Nat → Option Sample}

section Outcomes

def allOf (s : Settings) (outcomes : String → Nat → Option Sample) (ip : String) : List (Option Sample) :=
  firstOf outcomes ip s.attemptCount

theorem head?_firstOf {ip : String} {k : Nat} (some' : 0 < k) :
    (firstOf outcomes ip k).head? = some (outcomes ip 0) := by
  obtain ⟨k, rfl⟩ := Nat.exists_eq_succ_of_ne_zero (Nat.ne_of_gt some')
  rw [firstOf, List.range_succ_eq_map, List.map_cons, List.head?_cons]

theorem settled_of_complete (s : Settings) {ip : String} {k : Nat}
    (complete : Complete s.attemptCount (firstOf outcomes ip k)) :
    resultOf s ip (firstOf outcomes ip k) = resultOf s ip (allOf s outcomes ip) ∧
      ∀ wall, verdictOf ip (firstOf outcomes ip k) wall = verdictOf ip (allOf s outcomes ip) wall := by
  rcases complete with lost | all
  · have some' : 0 < k := by
      rcases Nat.eq_zero_or_pos k with rfl | some'
      · cases lost
      · exact some'
    have lost' : (allOf s outcomes ip).head? = some none := by
      rw [allOf, head?_firstOf (attemptCount_pos s), ← head?_firstOf some', lost]
    refine ⟨(result_of_lost lost ip 0).1.trans (result_of_lost lost' ip 0).1.symm, fun wall => ?_⟩
    rw [verdictOf, verdictOf, if_pos lost, if_pos lost']
  · have same : k = s.attemptCount := by simpa [firstOf] using all
    rw [same]
    exact ⟨rfl, fun _ => rfl⟩

end Outcomes

section Entering

/-- Each late job that has completed its measurement has entered it at some moment, and nothing else is
entered. -/
structure Entered (start : HistoryBook) (base : Nat) (moment : Int → Prop) (r : Ranker σ) : Prop where
  frame : r.history = { start with records := r.history.records }
  untouched : ∀ ip, (∀ n job, base ≤ n → r.jobs[n]? = some job → job.ip = ip →
    ¬Complete r.settings.attemptCount (answersOf n r.journal)) →
      r.history.records.find? ip = start.records.find? ip
  entered : ∀ n job, base ≤ n → r.jobs[n]? = some job →
    Complete r.settings.attemptCount (answersOf n r.journal) → ∃ wall, moment wall ∧
      r.history.records.find? job.ip =
        (start.note (verdictOf job.ip (answersOf n r.journal) wall)).records.find? job.ip

variable {start : HistoryBook} {moment : Int → Prop}

theorem open_of_concludes (boarded : Boarded r.flights r.agenda r.jobs) {job : Job}
    (concludes : Concludes r n job (r.perform act)) :
    ∃ old, r.jobs[n]? = some old ∧ old.isDone = false := by
  have changes (same : answersOf n (r.perform act).journal = answersOf n r.journal) : False :=
    concludes.incomplete (same ▸ concludes.complete)
  cases converses_perform r act boarded with
  | silent news journal mute same memory =>
    exact (changes (by rw [journal, answersOf_mute mute])).elim
  | speaks k other tail news pending turn known open' journal mute talk changed single =>
    by_cases here : n = k
    · exact ⟨other, here ▸ known, open'⟩
    · refine (changes ?_).elim
      rw [journal, answersOf_mute mute, answersOf_append, answersOf_talk talk here, List.append_nil]

theorem job_of_complete (attends : Attends r) {job : Job} (known' : (r.perform act).jobs[n]? = some job)
    (complete : Complete r.settings.attemptCount (answersOf n r.journal)) :
    ∃ old, r.jobs[n]? = some old ∧ job.ip = old.ip := by
  cases known : r.jobs[n]? with
  | none =>
    rw [attends.unborn n (List.getElem?_eq_none_iff.mp known)] at complete
    exact absurd complete (not_complete_nil _)
  | some old =>
    obtain ⟨stage, rfl⟩ := job_of_perform known known'
    exact ⟨old, rfl, rfl⟩

theorem find?_note_congr {book : HistoryBook} (frame : book = { start with records := book.records })
    {entry : HistoryBook.Entry} (same : book.records.find? entry.ip = start.records.find? entry.ip) :
    (book.note entry).records.find? entry.ip = (start.note entry).records.find? entry.ip := by
  have cap : book.cap = start.cap := by rw [frame]
  rw [HistoryBook.find?_note, HistoryBook.find?_note, if_pos rfl, if_pos rfl, cap,
    HistoryBook.record, HistoryBook.record, same]

theorem outside_of_own (own : act.isOwn = true) (r : Ranker σ) : r.outside act = [] := by
  cases act <;> first | rfl | cases own

/-- An act that completes no measurement leaves what was entered. -/
theorem Entered.lasting (entered : Entered start base moment r) (attends : Attends r)
    (lasts : Lasts r (r.perform act)) (history : (r.perform act).history = r.history) :
    Entered start base moment (r.perform act) := by
  have settings := (fixed_perform r act).1
  refine ⟨by rw [history]; exact entered.frame, fun ip none' => ?_, fun n job late known' complete => ?_⟩
  · rw [history]
    refine entered.untouched ip fun n job late known mine complete => ?_
    obtain ⟨stage, known'⟩ := job_perform r act known
    refine none' n _ late known' mine ?_
    rw [settings, lasts n (Or.inl complete)]
    exact complete
  · rw [settings] at complete
    have same := lasts n (Or.inr complete)
    rw [same] at complete ⊢
    obtain ⟨old, known, ip⟩ := job_of_complete attends known' complete
    rw [history, ip]
    exact entered.entered n old late known complete

/-- An act that completes one measurement enters that, under an address that has no other entry. -/
theorem Entered.concluding (entered : Entered start base moment r) (agree : JobsAgree r)
    (solitary : Solitary base c domain r) (later : Solitary base c domain (r.perform act))
    {job : Job} (concludes : Concludes r n job (r.perform act)) (now : moment r.wall) :
    Entered start base moment (r.perform act) := by
  have settings := (fixed_perform r act).1
  obtain ⟨old, known, notDone⟩ := open_of_concludes agree.boarded concludes
  have late := solitary.late known notDone
  obtain ⟨job', known', mine⟩ := concludes.known
  have ip : old.ip = job.ip := by
    obtain ⟨stage, rfl⟩ := job_of_perform known known'
    exact mine
  have address := Deed.ip_verdictOf job.ip (answersOf n (r.perform act).journal) r.wall
  -- no other late job is for this address, so its record is still that of the start
  have before : r.history.records.find? job.ip = start.records.find? job.ip := by
    refine entered.untouched job.ip fun m other late' known'' same complete => ?_
    cases solitary.unique late' late known'' known (same.trans ip.symm)
    exact concludes.incomplete complete
  have elsewhere {other : String} (apart : other ≠ job.ip) :
      (r.perform act).history.records.find? other = r.history.records.find? other := by
    rw [concludes.history, HistoryBook.find?_note, address, if_neg apart]
  constructor
  case frame => rw [concludes.history, HistoryBook.note_eq, entered.frame]
  case untouched =>
    intro other none'
    have apart : other ≠ job.ip := fun same =>
      none' n job' late known' (mine.trans same.symm) (settings ▸ concludes.complete)
    rw [elsewhere apart]
    refine entered.untouched other fun m job'' late' known'' same complete => ?_
    have different : m ≠ n := fun here => concludes.incomplete (here ▸ complete)
    obtain ⟨stage, known'''⟩ := job_perform r act known''
    refine none' m _ late' known''' same ?_
    rw [settings, concludes.others m different]
    exact complete
  case entered =>
    intro m other late' known'' complete
    rw [settings] at complete
    by_cases here : m = n
    · subst here
      cases known''.symm.trans known'
      refine ⟨r.wall, now, ?_⟩
      rw [mine, concludes.history]
      have same := find?_note_congr entered.frame (address ▸ before)
      rwa [address] at same
    · rw [concludes.others m here] at complete ⊢
      have apart : other.ip ≠ job.ip := fun same =>
        here (later.unique late' late known'' known' (same.trans mine.symm))
      obtain ⟨old', known''', ip'⟩ := job_of_complete agree.attends known'' complete
      rw [elsewhere apart, ip']
      exact entered.entered m old' late' known''' complete

theorem Entered.perform (entered : Entered start base moment r) (agree : JobsAgree r)
    (solitary : Solitary base c domain r) (later : Solitary base c domain (r.perform act))
    (own : act.isOwn = true) (now : moment r.wall) : Entered start base moment (r.perform act) := by
  obtain ⟨takes, history, -⟩ := taken_perform agree.boarded agree.attends act
  cases takes with
  | none lasts deeds =>
    rw [deeds, outside_of_own own, List.foldl_nil] at history
    exact entered.lasting agree.attends lasts history
  | one n job turn concludes deeds => exact entered.concluding agree solitary later concludes now

end Entering

section Seclusion

/-- All that holds of a ranking by itself, before it returns and after. -/
structure Secluded (start : HistoryBook) (base c : Nat) (domain : String)
    (outcomes : String → Nat → Option Sample) (moment : Int → Prop) (r : Ranker σ) : Prop where
  restrained : Restrained r
  agree : JobsAgree r
  solitary : Solitary base c domain r
  uncalled : Uncalled r c
  recites : ∃ counts, Recites base c outcomes counts r
  entered : Entered start base moment r

variable {start : HistoryBook} {moment : Int → Prop} {job : Job}

theorem Secluded.perform (secluded : Secluded start base c domain outcomes moment r)
    (own : act.isOwn = true) (distinct : (roster c (r.perform act).jobs).Nodup)
    (now : moment r.wall) : Secluded start base c domain outcomes moment (r.perform act) := by
  obtain ⟨restrained, agree, solitary, uncalled, ⟨counts, recites⟩, entered⟩ := secluded
  have later := solitary.perform agree.boarded own distinct
  exact ⟨restrained.perform act, agree.perform act, later, uncalled.perform agree.boarded own,
    recites.perform agree solitary later own, entered.perform agree solitary later own now⟩

def recordAfter (start : HistoryBook) (s : Settings) (outcomes : String → Nat → Option Sample)
    (ip : String) (wall : Int) : Option FailureRecord :=
  (start.note (verdictOf ip (allOf s outcomes ip) wall)).records.find? ip

/-- A job that is done came to what all outcomes for its address come to, and has entered it. -/
theorem Secluded.settled (secluded : Secluded start base c domain outcomes moment r) (late : base ≤ n)
    (known : r.jobs[n]? = some job) (done : job.isDone = true) :
    job.stage = .done (resultOf r.settings job.ip (allOf r.settings outcomes job.ip)) ∧
      ∃ wall, moment wall ∧
        r.history.records.find? job.ip = recordAfter start r.settings outcomes job.ip wall := by
  obtain ⟨counts, recites⟩ := secluded.recites
  have heard := recites.heard n job late known
  have lone := secluded.solitary.lone n job late known
  have attended := secluded.agree.attends.attended n job known
  cases stage : job.stage with
  | done outcome =>
    have silent : r.outstanding n = none := by rw [outstanding, known, Option.bind_some, stage]; rfl
    rw [silent, Option.toList_none, List.append_nil] at heard
    unfold Job.Lone at lone
    rw [stage] at lone attended
    obtain ⟨complete, result⟩ := attended.resolve_left lone
    obtain ⟨wall, now, entered⟩ := secluded.entered.entered n job late known complete
    rw [heard] at complete result entered
    obtain ⟨result', verdict'⟩ := settled_of_complete r.settings complete
    rw [verdict'] at entered
    exact ⟨by rw [result, result'], wall, now, entered⟩
  | _ => simp [Job.isDone, stage] at done

variable (secluded : Secluded start base c domain outcomes moment r) (idle : live c r.jobs = 0)

include idle in
theorem done_of_idle (member : job ∈ r.jobs) (own : job.owner = .ranking c) : job.isDone = true := by
  have least := le_totalOf (liveOf c) member
  rw [← live, idle] at least
  simpa [liveOf, own] using least

include secluded idle

theorem Secluded.found :
    found c r.jobs = (roster c r.jobs).map fun ip =>
      resultOf r.settings ip (allOf r.settings outcomes ip) := by
  unfold Ranker.found roster
  rw [List.map_filterMap]
  refine List.filterMap_congr fun job member => ?_
  unfold reported posted
  split
  · rename_i own
    obtain ⟨n, known⟩ := List.mem_iff_getElem?.mp member
    have late := (secluded.solitary.own_iff known).mp own
    have stage := (secluded.settled late known (done_of_idle idle member own)).1
    rw [outcome?_eq_some.mpr stage]
    rfl
  · rfl

/-- The histories once some addresses are measured, and no others. -/
structure BookAfter (start : HistoryBook) (s : Settings) (outcomes : String → Nat → Option Sample)
    (moment : Int → Prop) (measured : List String) (book : HistoryBook) : Prop where
  frame : book = { start with records := book.records }
  entered : ∀ ip ∈ measured, ∃ wall, moment wall ∧
    book.records.find? ip = recordAfter start s outcomes ip wall
  untouched : ∀ ip, ip ∉ measured → book.records.find? ip = start.records.find? ip

theorem Secluded.book {measured : List String} (crew : ∀ ip, ip ∈ roster c r.jobs ↔ ip ∈ measured) :
    BookAfter start r.settings outcomes moment measured r.history where
  frame := secluded.entered.frame
  entered := by
    intro ip member
    obtain ⟨job, member', own, rfl⟩ := mem_roster.mp ((crew ip).mpr member)
    obtain ⟨n, known⟩ := List.mem_iff_getElem?.mp member'
    have late := (secluded.solitary.own_iff known).mp own
    exact (secluded.settled late known (done_of_idle idle member' own)).2
  untouched := by
    intro ip strange
    refine secluded.entered.untouched ip fun n job late known mine _ => strange ((crew ip).mp ?_)
    exact mem_roster.mpr ⟨job, List.mem_of_getElem? known, (secluded.solitary.own_iff known).mpr late, mine⟩

end Seclusion

section Comparing

variable {start book book' : HistoryBook} {s : Settings} {moment moment' : Int → Prop}
  {measured measured' : List String}

theorem timeless_recordAfter (ip : String) (wall wall' : Int) :
    (recordAfter start s outcomes ip wall).map FailureRecord.timeless =
      (recordAfter start s outcomes ip wall').map FailureRecord.timeless := by
  unfold recordAfter
  rw [HistoryBook.find?_note, HistoryBook.find?_note, Deed.ip_verdictOf, Deed.ip_verdictOf, if_pos rfl,
    if_pos rfl, Option.map_some, Option.map_some]
  unfold verdictOf
  split
  · exact congrArg some (FailureRecord.timeless_fastFail ..)
  · split
    · exact congrArg some (FailureRecord.timeless_fail ..)
    · rfl

/-- But for the times of failures the histories depend on what was measured alone. -/
theorem BookAfter.timeless (after : BookAfter start s outcomes moment measured book)
    (after' : BookAfter start s outcomes moment' measured' book')
    (same : ∀ ip, ip ∈ measured' ↔ ip ∈ measured) (ip : String) :
    (book'.records.find? ip).map FailureRecord.timeless =
      (book.records.find? ip).map FailureRecord.timeless := by
  by_cases member : ip ∈ measured
  · obtain ⟨wall, -, record⟩ := after.entered ip member
    obtain ⟨wall', -, record'⟩ := after'.entered ip ((same ip).mpr member)
    rw [record, record']
    exact timeless_recordAfter ip wall' wall
  · rw [after.untouched ip member, after'.untouched ip fun member' => member ((same ip).mp member')]

theorem BookAfter.weight {wall : Int} (after : BookAfter start s outcomes (· = wall) measured book)
    (after' : BookAfter start s outcomes (· = wall) measured' book')
    (same : ∀ ip, ip ∈ measured' ↔ ip ∈ measured) (ip : String) (now : Int) :
    book'.records.find? ip = book.records.find? ip ∧ book'.weight ip now = book.weight ip now := by
  have record : book'.records.find? ip = book.records.find? ip := by
    by_cases member : ip ∈ measured
    · obtain ⟨_, rfl, record⟩ := after.entered ip member
      obtain ⟨_, rfl, record'⟩ := after'.entered ip ((same ip).mpr member)
      exact record'.trans record.symm
    · rw [after.untouched ip member, after'.untouched ip fun member' => member ((same ip).mp member')]
  have window : book'.window = book.window := by rw [after.frame, after'.frame]
  exact ⟨record, by rw [HistoryBook.weight, HistoryBook.weight, record, window]⟩

end Comparing

end Ranker

end LatencyRank
