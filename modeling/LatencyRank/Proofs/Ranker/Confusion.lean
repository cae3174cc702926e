import Mathlib
import LatencyRank.Probe.Script
import LatencyRank.Proofs.Ranker.Revalidation
import LatencyRank.Proofs.Ranker.Solitude

/-!
Who shares a measurement with whom. Jobs share by the text of their pair, the address, a colon and the
domain, and as either may have colons in it, one text can be the text of several pairs. Whatever is
shared was measured for a pair of the same text; with no colons in the domains that is the pair itself.
-/

namespace LatencyRank

namespace Ranker

variable {σ : Type}

section Questions

variable {r start : Ranker σ}

/-- What was asked for a job was about its pair. -/
def Faithful (r : Ranker σ) : Prop :=
  ∀ k ip domain time, .asked k ip domain time ∈ r.journal →
    ∃ job, r.jobs[k]? = some job ∧ job.ip = ip ∧ job.domain = domain

theorem asked_of_talk {prober : Prober σ} {n : Nat} {ip domain : String} {now : Nat} {memory memory' : σ}
    {pending pending' : Option (Option Sample)} {news : List RankerEvent}
    (talk : Talk prober n ip domain now memory pending news memory' pending') {k : Nat}
    {ip' domain' : String} {time : Nat} (asked : .asked k ip' domain' time ∈ news) :
    k = n ∧ ip = ip' ∧ domain = domain' := by
  induction talk with
  | silence => cases asked
  | asks talk ih =>
    rcases List.mem_cons.mp asked with now' | before
    · cases now'
      exact ⟨rfl, rfl, rfl⟩
    · exact ih before
  | hears talk ih =>
    rcases List.mem_cons.mp asked with now' | before
    · cases now'
    · exact ih before

theorem Faithful.perform (faithful : Faithful r) (boarded : Boarded r.flights r.agenda r.jobs)
    (act : Act σ) : Faithful (r.perform act) := by
  have silent {events : List RankerEvent} (mute : ∀ event ∈ events, event.isMute = true) {k : Nat}
      {ip domain : String} {time : Nat} : .asked k ip domain time ∉ events :=
    fun member => Bool.false_ne_true (mute _ member)
  have lasts {k : Nat} {ip domain : String}
      (known : ∃ job, r.jobs[k]? = some job ∧ job.ip = ip ∧ job.domain = domain) :
      ∃ job, (r.perform act).jobs[k]? = some job ∧ job.ip = ip ∧ job.domain = domain := by
    obtain ⟨job, known, address, domain⟩ := known
    obtain ⟨stage, known'⟩ := job_perform r act known
    exact ⟨_, known', address, domain⟩
  intro k ip domain time asked
  cases converses_perform r act boarded with
  | silent news journal mute same memory =>
    rw [journal] at asked
    exact lasts (faithful _ _ _ _ ((List.mem_append.mp asked).resolve_left (silent mute)))
  | speaks n job tail news pending turn known open' journal mute talk changed single =>
    rw [journal] at asked
    rcases List.mem_append.mp ((List.mem_append.mp asked).resolve_left (silent mute)) with new | old
    · obtain ⟨rfl, address, domain⟩ := asked_of_talk talk new
      exact lasts ⟨job, known, address, domain⟩
    · exact lasts (faithful _ _ _ _ old)

theorem faithful_after (agree : JobsAgree start) (silent : start.journal = []) (acts : List (Act σ)) :
    Faithful (start.after acts) := by
  induction acts using List.reverseRecOn with
  | nil =>
    intro k ip domain time asked
    have asked' : .asked k ip domain time ∈ start.journal := asked
    rw [silent] at asked'
    cases asked'
  | append_singleton acts act ih =>
    rw [after_append]
    exact ih.perform (agree.after acts).boarded act

/-- A job has measured a pair in a course: it asked about that pair alone, and this came of the
answers. -/
structure Probed (start : Ranker σ) (acts : List (Act σ)) (ip domain : String) (outcome : Measurement)
    (k : Nat) : Prop where
  measures : ∃ front back leader, Measures start acts front back k leader ∧ leader.ip = ip ∧
    leader.domain = domain ∧ leader.stage = .done outcome
  asked : ∀ ip' domain' time, .asked k ip' domain' time ∈ (start.after acts).journal →
    ip' = ip ∧ domain' = domain
  named : outcome.ip = ip

theorem probed_of_measures (agree : JobsAgree start) (silent : start.journal = [])
    {acts front back : List (Act σ)} {k : Nat} {leader : Job} {outcome : Measurement}
    (measures : Measures start acts front back k leader)
    (stage : leader.stage = .done outcome) :
    Probed start acts leader.ip leader.domain outcome k where
  measures := ⟨front, back, leader, measures, rfl, rfl, stage⟩
  asked := by
    intro ip domain time asked
    obtain ⟨job, known, rfl, rfl⟩ := faithful_after agree silent acts k ip domain time asked
    cases known.symm.trans measures.known
    exact ⟨rfl, rfl⟩
  named := by
    have same := JobStage.done.inj (stage.symm.trans measures.outcome)
    rw [same]
    exact ip_measure ..

end Questions

section Invitations

variable {r start : Ranker σ}

/-- Each job is there for a ranking, and measures for its domain. -/
def Invited (r : Ranker σ) : Prop :=
  ∀ job ∈ r.jobs, ∃ c order, (r.rankings.map RankingCall.order)[c]? = some order ∧
    job.domain = order.2 ∧ (job.owner = .refresh ∨ job.owner = .ranking c)

theorem Invited.perform (invited : Invited r) (act : Act σ) : Invited (r.perform act) := by
  have orders := orders_perform r act
  have lasts {job job' : Job} (member : job ∈ r.jobs) (domain : job.domain = job'.domain)
      (owner : job.owner = job'.owner) :
      ∃ c order, ((r.perform act).rankings.map RankingCall.order)[c]? = some order ∧
        job'.domain = order.2 ∧ (job'.owner = .refresh ∨ job'.owner = .ranking c) := by
    obtain ⟨c, order, listed, asked, own⟩ := invited job member
    refine ⟨c, order, ?_, domain ▸ asked, owner ▸ own⟩
    rw [orders, List.getElem?_append_left (List.getElem?_eq_some_iff.mp listed).1, listed]
  intro job' member'
  rcases outcome_perform r act with ⟨-, turn⟩ | aside
  · generalize r.perform act = r' at lasts orders member' turn
    cases turn with
    | ofJob popped known turn =>
      -- A turn changes the stages of jobs. What is compared here does not read them.
      let view (job : Job) : String × Owner := (job.domain, job.owner)
      have still (stage : JobStage) (job : Job) : view (job.atStage stage) = view job := rfl
      have seen : view job' ∈ r.jobs.map view :=
        map_of_jobTurn still turn ▸ List.mem_map_of_mem member'
      obtain ⟨job, member, same⟩ := List.mem_map.mp seen
      exact lasts member (congrArg Prod.fst same) (congrArg Prod.snd same)
    | @ofRanking c agenda call _ popped known turn =>
      rcases recruits_of_turn turn with rfl | ⟨recruits, r'', call'', news, enlisted, rfl, -⟩
      · exact lasts member' rfl rfl
      · have more : r''.jobs = r.jobs ++ recruits := enlisted.enlists.jobs
        have member'' : job' ∈ r.jobs ++ recruits := more ▸ member'
        rcases List.mem_append.mp member'' with old | new
        · exact lasts old rfl rfl
        · obtain ⟨domain, own⟩ := enlisted.owners job' new
          have listed : (r.rankings.map RankingCall.order)[c]? = some call.order := by
            rw [List.getElem?_map, known, Option.map_some]
          refine ⟨c, call.order, ?_, domain, own⟩
          rw [orders, List.getElem?_append_left (List.getElem?_eq_some_iff.mp listed).1, listed]
    | rests empty => exact lasts member' rfl rfl
    | ofCancel popped known => exact lasts member' rfl rfl
    | lapses popped noJob noRanking => exact lasts member' rfl rfl
  · rw [aside.still.1] at member'
    exact lasts member' rfl rfl

theorem invited_after (nobody : start.jobs = []) (acts : List (Act σ)) : Invited (start.after acts) := by
  refine after_induction (motive := Invited) (fun r act invited => invited.perform act) ?_ acts
  intro job member
  rw [nobody] at member
  cases member

theorem Invited.domain_of_own (invited : Invited r) {job : Job} {c : Nat} {call : RankingCall}
    (member : job ∈ r.jobs) (own : job.owner = .ranking c) (known : r.rankings[c]? = some call) :
    job.domain = call.domain := by
  obtain ⟨c', order, listed, domain, owner⟩ := invited job member
  rw [own] at owner
  cases owner.resolve_left (by simp)
  rw [List.getElem?_map, known, Option.map_some] at listed
  rw [domain, ← Option.some.inj listed]
  rfl

theorem Invited.requested {acts : List (Act σ)} (invited : Invited (start.after acts))
    (empty : start.rankings = []) {job : Job} (member : job ∈ (start.after acts).jobs) :
    ∃ order ∈ requested acts, job.domain = order.2 := by
  obtain ⟨c, order, listed, domain, -⟩ := invited job member
  rw [orders_after, empty, List.map_nil, List.nil_append] at listed
  exact ⟨order, List.mem_of_getElem? listed, domain⟩

end Invitations

section Merging

variable {r start : Ranker σ} {acts early late : List (Act σ)} {c n : Nat} {call : RankingCall}
  {job : Job} {outcome result : Measurement}

theorem done_perform (boarded : Boarded r.flights r.agenda r.jobs) (act : Act σ)
    (known : r.jobs[n]? = some job) (stage : job.stage = .done outcome) :
    (r.perform act).jobs[n]? = some job := by
  obtain ⟨stage', known'⟩ := job_perform r act known
  have isDone : job.isDone = true := by rw [Job.isDone, stage]
  have open' {other : Job} (before : r.jobs[n]? = some other) (notDone : other.isDone = false) : False := by
    cases before.symm.trans known
    rw [isDone] at notDone
    cases notDone
  cases moves_perform boarded act known' with
  | still before =>
    rw [known', before.symm.trans known]
  | fresh new stage'' => exact absurd (List.getElem?_eq_some_iff.mp known).1 (Nat.not_lt.mpr new)
  | waits before stage'' behind shape => exact (open' before (by rw [Job.isDone, stage''])).elim
  | attempts before notDone shape => exact (open' before notDone).elim
  | makes before notDone shape makes => exact (open' before notDone).elim
  | told before waited shape makes => exact (open' before (by rw [Job.isDone, waited])).elim
  | ends before stage'' shape => exact (open' before (by rw [Job.isDone, stage''])).elim

theorem done_after (agree : JobsAgree r) (known : r.jobs[n]? = some job) (stage : job.stage = .done outcome)
    (acts : List (Act σ)) : (r.after acts).jobs[n]? = some job := by
  induction acts using List.reverseRecOn with
  | nil => exact known
  | append_singleton acts act ih =>
    rw [after_append]
    exact done_perform (agree.after acts).boarded act ih stage

/-- A result of a ranking is a hit for a candidate, or a job of its own for a candidate has come to it. -/
theorem Begun.source (begun : Begun start early late c call) (agree : JobsAgree start)
    {results : List Measurement} {time : Nat} (stage : call.stage = .returned results time)
    (member : result ∈ results) :
    (∃ ip ∈ call.candidates, (start.after early).served ip = some result) ∨
      ∃ (n : Nat) (job : Job), (start.after (early ++ .turn :: late)).jobs[n]? = some job ∧
        job.owner = .ranking c ∧ job.stage = .done result ∧ job.ip ∈ call.candidates := by
  obtain ⟨front, back, moment, returns⟩ := begun.returned results time stage
  have listed (ip : String) (looked : ip ∈ chosen (start.after early).settings call.candidates) :
      ip ∈ call.candidates := (chosen_sublist _ _).subset looked
  rcases List.mem_append.mp (returns.found.subset member) with hit | mine
  · rw [begun.hits] at hit
    obtain ⟨ip, looked, served⟩ := List.mem_filterMap.mp hit
    exact Or.inl ⟨ip, listed ip looked, served⟩
  · obtain ⟨job, member', own, stage'⟩ := mem_found.mp mine
    obtain ⟨n, known⟩ := List.mem_iff_getElem?.mp member'
    have course : start.after (early ++ .turn :: late) =
        ((start.after (early ++ front)).perform .turn).after back := by
      rw [moment, ← List.append_assoc, after_append]
      rfl
    have known' : (start.after (early ++ .turn :: late)).jobs[n]? = some job := by
      rw [course]
      exact done_after ((agree.after _).perform .turn) known stage' back
    obtain ⟨left, posts, -⟩ := begun.posts
    have posted : job.ip ∈ roster c (start.after (early ++ .turn :: late)).jobs :=
      mem_roster.mpr ⟨job, List.mem_of_getElem? known', own, rfl⟩
    have missing : job.ip ∈ missesOf (start.after early) call.candidates :=
      posts ▸ List.mem_append_left left posted
    exact Or.inr ⟨n, job, known', own, stage', listed _ (List.mem_of_mem_filter missing)⟩

/-- A job that is done came to what was measured for a pair that reads like its own. -/
theorem probed_of_done (agree : JobsAgree start) (silent : start.journal = []) (nobody : start.jobs = [])
    (known : (start.after acts).jobs[n]? = some job) (stage : job.stage = .done outcome) :
    ∃ k leader, (start.after acts).jobs[k]? = some leader ∧
      Confusable job.ip job.domain leader.ip leader.domain ∧
        Probed start acts leader.ip leader.domain outcome k := by
  obtain ⟨front, back, k, leader, sameKey, stage', measures⟩ :=
    measuredOnce_of_done agree silent nobody known stage
  exact ⟨k, leader, measures.known, pairKey_eq_iff.mp sameKey.symm,
    probed_of_measures agree silent measures stage'⟩

/-- A ranking of a course has returned this among its results. -/
def Yields (start : Ranker σ) (acts : List (Act σ)) (c : Nat) (call : RankingCall)
    (result : Measurement) : Prop :=
  (start.after acts).rankings[c]? = some call ∧
    ∃ results time, call.stage = .returned results time ∧ result ∈ results

/-- Who shares a measurement with whom, by the end of a course. -/
structure Merges (start : Ranker σ) (acts : List (Act σ)) : Prop where
  /-- What a job came to was measured for a pair that reads like its own. -/
  jobs : ∀ (n : Nat) (job : Job) outcome, (start.after acts).jobs[n]? = some job →
    job.stage = .done outcome →
      ∃ ip domain k, Confusable job.ip job.domain ip domain ∧ Probed start acts ip domain outcome k
  /-- A result of a ranking was served for a candidate, or measured for a pair that reads like the pair
  of a candidate. -/
  results : ∀ c call result, Yields start acts c call result →
    (∃ ip ∈ call.candidates, ∃ early, early <+: acts ∧ (start.after early).served ip = some result) ∨
      ∃ candidate ∈ call.candidates, ∃ ip domain k, Confusable candidate call.domain ip domain ∧
        Probed start acts ip domain result k
  /-- As long as there are no colons in the domains that are asked for, each job gets its own. -/
  plain : (∀ order ∈ requested acts, Plain order.2) →
    ∀ (n : Nat) (job : Job) outcome, (start.after acts).jobs[n]? = some job →
      job.stage = .done outcome → ∃ k, Probed start acts job.ip job.domain outcome k
  /-- Then no ranking returns an address that it was not asked about. -/
  own : (∀ order ∈ requested acts, Plain order.2) →
    ∀ c call result, Yields start acts c call result → result.ip ∈ call.candidates

theorem source_of_yields (agree : JobsAgree start) (crews : CrewsAgree start) (empty : start.rankings = [])
    (yields : Yields start acts c call result) :
    (∃ ip ∈ call.candidates, ∃ early, early <+: acts ∧ (start.after early).served ip = some result) ∨
      ∃ (n : Nat) (job : Job), (start.after acts).jobs[n]? = some job ∧ job.owner = .ranking c ∧
        job.stage = .done result ∧ job.ip ∈ call.candidates := by
  obtain ⟨known, results, time, stage, member⟩ := yields
  obtain expected | ⟨early, late, rfl, begun⟩ := begun_after crews empty known
  · simp [expected] at stage
  · refine (begun.source agree stage member).imp_left ?_
    exact fun ⟨ip, asked, served⟩ => ⟨ip, asked, early, List.prefix_append _ _, served⟩

theorem probed_of_plain (agree : JobsAgree start) (silent : start.journal = []) (nobody : start.jobs = [])
    (empty : start.rankings = []) (plain : ∀ order ∈ requested acts, Plain order.2)
    (known : (start.after acts).jobs[n]? = some job) (stage : job.stage = .done outcome) :
    ∃ k, Probed start acts job.ip job.domain outcome k := by
  have plainJob {m : Nat} {other : Job} (known : (start.after acts).jobs[m]? = some other) :
      Plain other.domain := by
    obtain ⟨order, asked, domain⟩ :=
      (invited_after nobody acts).requested empty (List.mem_of_getElem? known)
    exact domain ▸ plain order asked
  obtain ⟨k, leader, known', alike, probed⟩ := probed_of_done agree silent nobody known stage
  obtain ⟨address, domain⟩ := alike.eq_of_plain (plainJob known) (plainJob known')
  rw [address, domain]
  exact ⟨k, probed⟩

theorem merges_after (agree : JobsAgree start) (crews : CrewsAgree start) (silent : start.journal = [])
    (nobody : start.jobs = []) (empty : start.rankings = []) (acts : List (Act σ)) : Merges start acts := by
  constructor
  case jobs =>
    intro n job outcome known stage
    obtain ⟨k, leader, -, alike, probed⟩ := probed_of_done agree silent nobody known stage
    exact ⟨leader.ip, leader.domain, k, alike, probed⟩
  case results =>
    intro c call result yields
    refine (source_of_yields agree crews empty yields).imp_right ?_
    rintro ⟨n, job, known, own, stage, asked⟩
    obtain ⟨k, leader, -, alike, probed⟩ := probed_of_done agree silent nobody known stage
    have domain : job.domain = call.domain :=
      (invited_after nobody acts).domain_of_own (List.mem_of_getElem? known) own yields.1
    rw [domain] at alike
    exact ⟨job.ip, asked, leader.ip, leader.domain, k, alike, probed⟩
  case plain => exact fun plain n job outcome => probed_of_plain agree silent nobody empty plain
  case own =>
    intro plain c call result yields
    rcases source_of_yields agree crews empty yields with
      ⟨ip, asked, early, -, served⟩ | ⟨n, job, known, -, stage, asked⟩
    · exact (ip_of_served served).symm ▸ asked
    · obtain ⟨k, probed⟩ := probed_of_plain agree silent nobody empty plain known stage
      exact probed.named.symm ▸ asked

/-- Pairs share a key exactly if they read alike, and a measurement is shared among such pairs only. -/
theorem merged_alike (settings : Settings) (base : String) (disk : Disk) (prober : Prober σ)
    (memory : σ) (clock : WallClock) (acts : List (Act σ)) :
    (∀ ip domain ip' domain', pairKey ip domain = pairKey ip' domain' ↔
      Confusable ip domain ip' domain') ∧
    Merges (make settings base disk prober memory clock) acts := by
  have crews := crewsAgree_make settings base disk prober memory clock
  have agree : JobsAgree (make settings base disk prober memory clock) := jobsAgree_make ..
  exact ⟨fun _ _ _ _ => pairKey_eq_iff, merges_after agree crews rfl rfl rfl acts⟩

/-- Two rankings, of one address each, under domains that are addresses as well. The second is asked for
while the first has its address measured. It never has its own measured, and returns the other. -/
theorem merged_unlike :
    let scripts := (Scripts.direct .empty "2001:db8::1" { usual := some ⟨10, some ⟨20, .tls⟩⟩ }).direct
      "2001:db8::1:2" { usual := some ⟨10, some ⟨30, .tls⟩⟩ }
    let start := make { freshSeconds := 0, attempts := 1 } "" .empty Scripts.prober scripts ⟨0⟩
    let acts : List (Act Scripts) :=
      [.request ["2001:db8::1"] "2:db8::7" 0 none, .request ["2001:db8::1:2"] "db8::7" 1 none, .turn,
        .turn, .tick, .turn, .turn, .tick, .turn, .turn, .turn, .turn]
    pairKey "2001:db8::1" "2:db8::7" = pairKey "2001:db8::1:2" "db8::7" ∧
    (start.after acts).rankings.map RankingCall.candidates = [["2001:db8::1"], ["2001:db8::1:2"]] ∧
    (start.after acts).rankings.map RankingCall.stage =
      [.returned [⟨"2001:db8::1", 20, .zero, .tls, false⟩] 10,
        .returned [⟨"2001:db8::1", 20, .zero, .tls, false⟩] 10] ∧
    (start.after acts).journal.filter (fun event => !event.isMute) =
      [.answered 0 (some ⟨20, .tls⟩) 10, .asked 0 "2001:db8::1" "2:db8::7" 0] := by
  decide +kernel

end Merging

end Ranker

end LatencyRank
