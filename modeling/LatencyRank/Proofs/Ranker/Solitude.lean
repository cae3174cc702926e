import Mathlib
import LatencyRank.Proofs.Ranker.Dialogue
import LatencyRank.Proofs.Ranker.Moves
import LatencyRank.Proofs.Ranker.Partial

/-!
A ranking by itself. It was asked of a ranker that had nothing else to do and does without the cache,
and it is left alone with it. Then all new jobs are its own; if they are for different addresses, no job
finds another at its pair, and each makes its measurement itself.
-/

namespace LatencyRank

/-- Whether a ranker comes to an act by itself. -/
def Act.isOwn {σ : Type} : Act σ → Bool
  | .turn | .tick => true
  | _ => false

/-- A job that is never told what another measured. -/
def Job.Lone (job : Job) (answers : List (Option Sample)) : Prop :=
  match job.stage with
  | .queued | .attempting .. => True
  | .waiting | .told _ => False
  | .done _ => answers ≠ []

namespace Ranker

variable {σ : Type}

section Rosters

variable {jobs : List Job} {c n m : Nat} {job other : Job}

theorem job_unique (distinct : (roster c jobs).Nodup) (known : jobs[n]? = some job)
    (known' : jobs[m]? = some other) (own : job.owner = .ranking c) (own' : other.owner = .ranking c)
    (same : job.ip = other.ip) : n = m := by
  have apart := List.pairwise_iff_getElem.mp (List.pairwise_filterMap.mp distinct)
  obtain ⟨inside, at'⟩ := List.getElem?_eq_some_iff.mp known
  obtain ⟨inside', at''⟩ := List.getElem?_eq_some_iff.mp known'
  rcases Nat.lt_trichotomy n m with before | here | after
  · refine absurd same (apart n m inside inside' before job.ip ?_ other.ip ?_)
    · rw [at', posted, if_pos own]
    · rw [at'', posted, if_pos own']
  · exact here
  · refine absurd same.symm (apart m n inside' inside after other.ip ?_ job.ip ?_)
    · rw [at'', posted, if_pos own']
    · rw [at', posted, if_pos own]

theorem ip_of_key (domain : job.domain = other.domain) (same : job.key = other.key) : job.ip = other.ip := by
  unfold Job.key pairKey at same
  rw [domain] at same
  have letters := congrArg String.toList same
  simp only [String.toList_append, List.append_assoc] at letters
  exact String.toList_inj.mp (List.append_cancel_right letters)

theorem chosen_sublist (s : Settings) (candidates : List String) :
    (chosen s candidates).Sublist candidates := by
  unfold chosen
  split
  · exact List.Sublist.refl _
  · exact List.take_sublist _ _

/-- A ranking of different candidates never has two jobs for one of them. -/
theorem roster_nodup {start : Ranker σ} {acts : List (Act σ)} {call : RankingCall}
    (crews : CrewsAgree start) (nobody : start.rankings = [])
    (known : (start.after acts).rankings[c]? = some call) (distinct : call.candidates.Nodup) :
    (roster c (start.after acts).jobs).Nodup := by
  rcases begun_after crews nobody known with stage | ⟨early, late, rfl, begun⟩
  · rw [(((crews.after acts).mustered.crewed c call known).expected stage).1]
    exact List.nodup_nil
  · obtain ⟨left, parts, -⟩ := begun.posts
    have few : (missesOf (start.after early) call.candidates).Nodup :=
      distinct.sublist (List.filter_sublist.trans (chosen_sublist _ _))
    rw [← parts] at few
    exact (List.nodup_append.mp few).1

end Rosters

section Recruiting

variable {r r' : Ranker σ} {n c : Nat} {job' : Job} {call : RankingCall}

theorem jobs_of_rankingTurn (uncached : r.settings.usesCache = false) (turn : RankingTurn r c call r') :
    ∃ ips : List String, r'.jobs =
      r.jobs ++ ips.map fun ip => { ip, domain := call.domain, owner := .ranking c } := by
  have looked {before : Ranker σ} {mid : RankingCall} {misses : List String}
      (sets : Sets r call before mid misses) : before.jobs = r.jobs := by
    cases sets with
    | looksUp stage =>
      have none' : (chosen r.settings call.candidates).filter r.servesStale = [] :=
        List.filter_eq_nil_iff.mpr fun ip _ => by simp [servesStale, served, uncached]
      rw [none']
      rfl
    | goesOn stage => rfl
    | waits stage => rfl
  cases turn with
  | breaks sets stage many => exact ⟨[], (looked sets :).trans (List.append_nil _).symm⟩
  | @pauses before mid misses sets going few =>
    have enlists := enlists_spawnAll call.domain (.ranking c) (misses.take mid.permits) before
    exact ⟨misses.take mid.permits, enlists.jobs.trans (by rw [looked sets])⟩
  | @joins before mid misses sets going enough busy =>
    have enlists := enlists_spawnAll call.domain (.ranking c) misses before
    exact ⟨misses, enlists.jobs.trans (by rw [looked sets])⟩
  | returns sets ended => exact ⟨[], (looked sets :).trans (List.append_nil _).symm⟩
  | idle ended => exact ⟨[], (List.append_nil _).symm⟩

theorem owner_of_new (uncached : r.settings.usesCache = false) (act : Act σ)
    (known' : (r.perform act).jobs[n]? = some job') (new : r.jobs.length ≤ n) :
    ∃ c call, r.rankings[c]? = some call ∧ call.isOver = false ∧ job'.owner = .ranking c ∧
      job'.domain = call.domain := by
  have old {jobs : List Job} (same : jobs.length = r.jobs.length) (known : jobs[n]? = some job') : False := by
    have inside := (List.getElem?_eq_some_iff.mp known).1
    omega
  rcases outcome_perform r act with ⟨-, turn⟩ | aside
  · generalize r.perform act = r' at known' turn
    cases turn with
    | ofJob popped known turn =>
      have still : ∀ stage job, (Job.atStage stage job).ip = job.ip := fun _ _ => rfl
      have views := congrArg List.length (map_of_jobTurn still turn)
      rw [List.length_map, List.length_map] at views
      exact (old views known').elim
    | @ofRanking c agenda call _ popped known turn =>
      cases over' : call.isOver with
      | true =>
        rw [same_of_over over' turn] at known'
        exact (old rfl known').elim
      | false =>
        obtain ⟨ips, jobs⟩ := jobs_of_rankingTurn (r := { r with agenda }) uncached turn
        rw [jobs, List.getElem?_append_right new] at known'
        obtain ⟨ip, -, rfl⟩ := List.mem_map.mp (List.mem_of_getElem? known')
        exact ⟨c, call, known, over', rfl, rfl⟩
    | _ => exact (old rfl known').elim
  · rw [aside.still.1] at known'
    exact (old rfl known').elim

end Recruiting

section Uncalled

variable {r r' : Ranker σ} {c : Nat} {act : Act σ} {call' : RankingCall}

theorem count_cancel_wakeAll (a : Agenda Task) {tasks : List Task} (none' : .cancel c ∉ tasks) :
    (a.wakeAll tasks).summons.count (.cancel c) = a.summons.count (.cancel c) := by
  rw [Agenda.count_summons_wakeAll, if_neg fun both => none' both.1, Nat.add_zero]

theorem cancel_not_mem_heeding (rankings : List RankingCall) (owner : Owner) (c : Nat) :
    Task.cancel c ∉ heeding rankings owner := by
  unfold heeding
  split
  · simp
  · split <;> simp

theorem count_cancel_jobTurn {n : Nat} {job : Job} (turn : JobTurn r n job r') (c : Nat) :
    r'.agenda.summons.count (.cancel c) = r.agenda.summons.count (.cancel c) := by
  have heeded (a : Agenda Task) (rankings : List RankingCall) (owner : Owner) :
      (a.wakeAll (heeding rankings owner)).summons.count (.cancel c) = a.summons.count (.cancel c) :=
    count_cancel_wakeAll a (cancel_not_mem_heeding rankings owner c)
  have told (a : Agenda Task) (waiting : List Nat) :
      (a.wakeAll (waiting.map .job)).summons.count (.cancel c) = a.summons.count (.cancel c) :=
    count_cancel_wakeAll a (by simp)
  cases turn with
  | sleeps begins news memory sample delay attempts reported took fewer positive =>
    exact (Agenda.count_summons_wakeAfter _ _ _ positive).trans (by simp)
  | concludes begins news memory attempts reported took all => exact (heeded ..).trans (told ..)
  | givesUp begins news memory attempts reported failed => exact (heeded ..).trans (told ..)
  | ends stage =>
    rw [finish_eq]
    exact heeded ..
  | _ => rfl

theorem count_cancel_turn (turn : Turn r r') (c : Nat) :
    r'.agenda.summons.count (.cancel c) ≤ r.agenda.summons.count (.cancel c) := by
  have fewer {agenda : Agenda Task} {task : Task} (popped : r.agenda.pop? = some (task, agenda)) :
      agenda.summons.count (.cancel c) ≤ r.agenda.summons.count (.cancel c) :=
    Agenda.count_summons_pop popped (.cancel c) ▸ Nat.le_add_right _ _
  cases turn with
  | rests empty => exact Nat.le_refl _
  | ofJob popped known turn => exact (Nat.le_of_eq (count_cancel_jobTurn turn c)).trans (fewer popped)
  | ofRanking popped known turn =>
    rcases recruits_of_turn turn with rfl | ⟨recruits, r'', call'', news, enlisted, rfl, -⟩
    · exact fewer popped
    · have tasks := enlisted.enlists.agenda
      refine Nat.le_trans (Nat.le_of_eq ?_) (fewer popped)
      change r''.agenda.summons.count _ = _
      rw [tasks]
      exact count_cancel_wakeAll _ (by simp [callsOf])
  | ofCancel popped known =>
    refine Nat.le_trans (Nat.le_of_eq ?_) (fewer popped)
    refine count_cancel_wakeAll _ ?_
    unfold heedingCancel
    split <;> simp
  | lapses popped noJob noRanking => exact fewer popped

/-- Only a cancellation of its own calls a ranking off. -/
theorem cancelled_of_turn (boarded : Boarded r.flights r.agenda r.jobs) (turn : Turn r r')
    (uncalled : r.agenda.summons.count (.cancel c) = 0) (known' : r'.rankings[c]? = some call') :
    ∃ call, r.rankings[c]? = some call ∧ call'.cancelled = call.cancelled := by
  cases turn with
  | rests empty => exact ⟨call', known', rfl⟩
  | ofJob popped known turn =>
    cases (reporting_of_turn boarded popped known turn).1 with
    | silent rankings same =>
      rw [rankings] at known'
      exact ⟨call', known', rfl⟩
    | @ended outcome rankings more =>
      rw [rankings] at known'
      unfold rankingsAfter at known'
      split at known'
      · exact ⟨call', known', rfl⟩
      · obtain ⟨call, before, ⟨-, rfl⟩ | ⟨-, rfl⟩⟩ := getElem?_modified known'
        · exact ⟨call, before, rfl⟩
        · exact ⟨_, before, rfl⟩
  | @ofRanking m agenda call _ popped known turn =>
    by_cases here : m = c
    · subst here
      cases over' : call.isOver with
      | true =>
        cases same_of_over over' turn
        exact ⟨call', known', rfl⟩
      | false =>
        obtain ⟨_, _, _, _, -, proceeds⟩ :=
          proceeds_of_turn (r := { r with agenda }) known over' turn known'
        exact ⟨call, known, proceeds.cancelled⟩
    · exact ⟨call', (beside_of_rankingTurn popped here turn known').1, rfl⟩
  | @ofCancel m agenda call popped known =>
    obtain ⟨call, before, ⟨rfl, -⟩ | ⟨-, rfl⟩⟩ := getElem?_modified known'
    -- The cancellation that came due was on the agenda, where there is none.
    · have once := Agenda.count_summons_pop popped (.cancel m)
      rw [if_pos rfl, uncalled] at once
      omega
    · exact ⟨_, before, rfl⟩
  | lapses popped noJob noRanking => exact ⟨call', known', rfl⟩

/-- Nobody calls a ranking off, now or later. -/
structure Uncalled (r : Ranker σ) (c : Nat) : Prop where
  never : r.agenda.summons.count (.cancel c) = 0
  going : ∀ call, r.rankings[c]? = some call → call.cancelled = false

theorem Uncalled.perform (uncalled : Uncalled r c) (boarded : Boarded r.flights r.agenda r.jobs)
    (own : act.isOwn = true) : Uncalled (r.perform act) c := by
  cases act with
  | turn =>
    have turn := turn_perform r
    refine ⟨Nat.le_zero.mp (uncalled.never ▸ count_cancel_turn turn c), fun call' known' => ?_⟩
    obtain ⟨call, known, same⟩ := cancelled_of_turn boarded turn uncalled.never known'
    exact same.trans (uncalled.going call known)
  | tick =>
    simp only [Ranker.perform, tick?]
    cases ticked : r.agenda.tick? with
    | none => exact uncalled
    | some later =>
      refine ⟨?_, uncalled.going⟩
      have once : r.agenda.summons.count (.cancel c) ≤ 1 := by
        rw [uncalled.never]
        exact Nat.zero_le 1
      exact (Agenda.count_summons_tick ticked once).trans uncalled.never
  | _ => cases own

end Uncalled

section Solitude

variable {r : Ranker σ} {base c n m : Nat} {domain : String} {act : Act σ} {job other : Job}

/-- Only one ranking goes on, with the jobs from some number on; the others are done. -/
structure Solitary (base c : Nat) (domain : String) (r : Ranker σ) : Prop where
  uncached : r.settings.usesCache = false
  others : ∀ d call, d ≠ c → r.rankings[d]? = some call → call.isOver = true
  own : ∀ call, r.rankings[c]? = some call → call.domain = domain
  longer : base ≤ r.jobs.length
  early : ∀ n job, n < base → r.jobs[n]? = some job → job.isDone = true
  foreign : ∀ n job, n < base → r.jobs[n]? = some job → job.owner ≠ .ranking c
  crew : ∀ n job, base ≤ n → r.jobs[n]? = some job → job.owner = .ranking c ∧ job.domain = domain
  distinct : (roster c r.jobs).Nodup
  lone : ∀ n job, base ≤ n → r.jobs[n]? = some job → job.Lone (answersOf n r.journal)

theorem Solitary.own_iff (solitary : Solitary base c domain r) (known : r.jobs[n]? = some job) :
    job.owner = .ranking c ↔ base ≤ n :=
  ⟨fun own => Nat.le_of_not_lt fun early => solitary.foreign n job early known own,
    fun late => (solitary.crew n job late known).1⟩

theorem Solitary.unique (solitary : Solitary base c domain r) (late : base ≤ n) (late' : base ≤ m)
    (known : r.jobs[n]? = some job) (known' : r.jobs[m]? = some other) (same : job.ip = other.ip) :
    n = m :=
  job_unique solitary.distinct known known' (solitary.crew n job late known).1
    (solitary.crew m other late' known').1 same

theorem Solitary.late (solitary : Solitary base c domain r) (known : r.jobs[n]? = some job)
    (notDone : job.isDone = false) : base ≤ n := by
  by_contra early
  have done := solitary.early n job (Nat.not_le.mp early) known
  rw [notDone] at done
  cases done

theorem Solitary.first (solitary : Solitary base c domain r) (known : r.jobs[n]? = some job)
    (notDone : job.isDone = false) {k : Nat} (known' : r.jobs[k]? = some other)
    (attempts : other.isAttempting = true) (same : other.key = job.key) : k = n := by
  have notDone' : other.isDone = false := by
    cases stage : other.stage <;> simp [Job.isAttempting, Job.isDone, stage] at attempts ⊢
  have late := solitary.late known notDone
  have late' := solitary.late known' notDone'
  have domains := (solitary.crew k other late' known').2.trans (solitary.crew n job late known).2.symm
  exact solitary.unique late' late known' known (ip_of_key domains same)

theorem requested_of_own (own : act.isOwn = true) : requested [act] = [] := by
  cases act <;> first | rfl | cases own

theorem answersOf_perform (boarded : Boarded r.flights r.agenda r.jobs) (act : Act σ) (n : Nat) :
    ∃ more, answersOf n (r.perform act).journal = answersOf n r.journal ++ more := by
  obtain ⟨news, journal⟩ := journal_perform boarded act
  exact ⟨answersOf n news, by rw [journal, answersOf_append]⟩

theorem lone_perform (boarded : Boarded r.flights r.agenda r.jobs) (solitary : Solitary base c domain r)
    (late : base ≤ n) (known' : (r.perform act).jobs[n]? = some job) :
    job.Lone (answersOf n (r.perform act).journal) := by
  cases moves_perform boarded act known' with
  | still known =>
    have lone := solitary.lone n job late known
    obtain ⟨more, answers⟩ := answersOf_perform boarded act n
    unfold Job.Lone at lone ⊢
    cases stage : job.stage with
    | done outcome =>
      rw [stage] at lone
      exact fun nothing => lone (List.append_eq_nil_iff.mp (answers ▸ nothing)).1
    | _ =>
      rw [stage] at lone
      exact lone
  | fresh new stage => simp [Job.Lone, stage]
  | waits known stage behind shape =>
    obtain ⟨k, other, different, known', attempts, same⟩ := behind
    exact absurd (solitary.first known (by simp [Job.isDone, stage]) known' attempts same) different
  | attempts known notDone shape =>
    rw [shape]
    trivial
  | makes known notDone shape makes =>
    rw [shape]
    exact makes.answered
  | @told old outcome k known waited shape makes =>
    have lone := solitary.lone n old late known
    simp [Job.Lone, waited] at lone
  | @ends old outcome known stage shape =>
    have lone := solitary.lone n old late known
    simp [Job.Lone, stage] at lone

theorem early_perform (boarded : Boarded r.flights r.agenda r.jobs) (solitary : Solitary base c domain r)
    (early : n < base) (known' : (r.perform act).jobs[n]? = some job) : job.isDone = true := by
  have done {old : Job} := solitary.early n old early
  cases moves_perform boarded act known' with
  | still known => exact done known
  | fresh new stage =>
    have longer := solitary.longer
    omega
  | waits known stage behind shape => simpa [Job.isDone, stage] using done known
  | attempts known notDone shape => simpa [notDone] using done known
  | makes known notDone shape makes =>
    rw [shape]
    rfl
  | told known waited shape makes => simpa [Job.isDone, waited] using done known
  | ends known stage shape =>
    rw [shape]
    rfl

theorem Solitary.perform (solitary : Solitary base c domain r)
    (boarded : Boarded r.flights r.agenda r.jobs) (own : act.isOwn = true)
    (distinct : (roster c (r.perform act).jobs).Nodup) : Solitary base c domain (r.perform act) where
  uncached := by
    rw [(fixed_perform r act).1]
    exact solitary.uncached
  others := by
    intro d call different known'
    cases passage_perform boarded act known' with
    | @beside old known beside =>
      have ended := solitary.others d old different known
      rw [RankingCall.isOver, beside.stage]
      exact ended
    | enters new shape jobs called =>
      have inside := (List.getElem?_eq_some_iff.mp known').1
      rw [length_rankings_perform, requested_of_own own, List.length_nil] at inside
      omega
    | @turns agenda old isTurn popped known open' turn =>
      rw [solitary.others d old different known] at open'
      cases open'
  own := by
    intro call known'
    have orders := congrArg (·[c]?) (orders_perform r act)
    simp only [requested_of_own own, List.append_nil, List.getElem?_map, known', Option.map_some] at orders
    obtain ⟨old, known, same⟩ := Option.map_eq_some_iff.mp orders.symm
    exact (congrArg Prod.snd same).symm.trans (solitary.own old known)
  longer := solitary.longer.trans (length_jobs_perform r act)
  early := fun n job early known' => early_perform boarded solitary early known'
  foreign := by
    intro n job early known'
    have inside : n < r.jobs.length := Nat.lt_of_lt_of_le early solitary.longer
    have known := List.getElem?_eq_getElem inside
    obtain ⟨stage, rfl⟩ := job_of_perform known known'
    exact solitary.foreign n r.jobs[n] early known
  crew := by
    intro n job late known'
    cases known : r.jobs[n]? with
    | some old =>
      obtain ⟨stage, rfl⟩ := job_of_perform known known'
      exact solitary.crew n old late known
    | none =>
      -- a new job is of a ranking that is not over, and only one is not
      obtain ⟨d, call, asked, open', owner, domain'⟩ :=
        owner_of_new solitary.uncached act known' (List.getElem?_eq_none_iff.mp known)
      have mine : d = c := by
        by_contra different
        rw [solitary.others d call different asked] at open'
        cases open'
      subst mine
      exact ⟨owner, domain'.trans (solitary.own call asked)⟩
  distinct := distinct
  lone := fun n job late known' => lone_perform boarded solitary late known'

end Solitude

end Ranker

end LatencyRank
