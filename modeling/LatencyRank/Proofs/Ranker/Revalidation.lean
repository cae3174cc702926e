import Mathlib
import LatencyRank.Probe.Script
import LatencyRank.Proofs.Ranker.Accounts
import LatencyRank.Proofs.Ranker.Dialogue
import LatencyRank.Proofs.Ranker.Leaders
import LatencyRank.Proofs.Ranker.Partial
import LatencyRank.Proofs.Ranker.Permits
import LatencyRank.Proofs.Ranker.Waiting

/-!
Serving stale entries while they are measured anew. A ranking tells its candidates by their entries at
one instant: it serves those that still answer, sees to it that the stale ones are being refreshed, and
measures the others itself, within its own time.
-/

namespace LatencyRank

namespace Ranker

variable {σ : Type}

section Since

variable {r base : Ranker σ} {m : Nat} {job : Job} {key : String} {outcome : Measurement}

/-- A measurement for a key has been completed since some moment, with this outcome. -/
def MeasuredSince (base r : Ranker σ) (key : String) (outcome : Measurement) : Prop :=
  ∃ news k wall, ∃ leader : Job, r.journal = news ++ base.journal ∧
    .measured k outcome wall ∈ news ∧ r.jobs[k]? = some leader ∧ leader.key = key

theorem MeasuredSince.perform (boarded : Boarded r.flights r.agenda r.jobs)
    (measured : MeasuredSince base r key outcome) (act : Act σ) :
    MeasuredSince base (r.perform act) key outcome := by
  obtain ⟨news, k, wall, leader, journal, member, known, sameKey⟩ := measured
  obtain ⟨later, journal'⟩ := journal_perform boarded act
  obtain ⟨stage, known'⟩ := job_perform r act known
  exact ⟨later ++ news, k, wall, _, by rw [journal', journal, List.append_assoc],
    List.mem_append_right _ member, known', sameKey⟩

theorem measuredSince_of_makes {k : Nat} (makes : Makes base r k key outcome) :
    MeasuredSince base r key outcome := by
  obtain ⟨leader, known, sameKey, -⟩ := makes.ended
  obtain ⟨news, wall, journal, member⟩ := makes.event
  exact ⟨news, k, wall, leader, journal, member, known, sameKey⟩

/-- Whatever a job comes to know after some moment was measured since then. -/
theorem measuredSince_after (boarded : Boarded base.flights base.agenda base.jobs) (acts : List (Act σ))
    (silent : ∀ old outcome, base.jobs[m]? = some old → old.heard? ≠ some outcome)
    (known : (base.after acts).jobs[m]? = some job) (heard : job.heard? = some outcome) :
    MeasuredSince base (base.after acts) job.key outcome := by
  induction acts using List.reverseRecOn generalizing job with
  | nil => exact absurd heard (silent job outcome known)
  | append_singleton acts act ih =>
    have boarded' := boarded_after boarded acts
    rw [after_append] at known ⊢
    rcases (moves_perform boarded' act known).heard heard with
      ⟨old, before, sameKey, heard'⟩ | ⟨k, makes⟩
    · exact sameKey ▸ (ih before heard').perform boarded' act
    · obtain ⟨news, k, wall, leader, journal, member, measured⟩ := measuredSince_of_makes makes
      obtain ⟨earlier, journal'⟩ := journal_after boarded acts
      exact ⟨news ++ earlier, k, wall, leader, by rw [List.append_assoc, ← journal']; exact journal,
        List.mem_append_left _ member, measured⟩

end Since

section Looking

variable {start r r' : Ranker σ} {agenda : Agenda Task} {acts early late : List (Act σ)} {c : Nat}
  {call call' : RankingCall} {results : List Measurement} {time : Nat}

theorem nothing_left (known : r.rankings[c]? = some call) (open' : call.isOver = false)
    (turn : RankingTurn r c call r') (known' : r'.rankings[c]? = some call')
    (stage : call'.stage = .returned results time) (going : call'.cancelled = false) :
    call.toDispatch? = some [] ∨ (call.stage = .expected ∧ missesOf r call.candidates = []) := by
  cases turn with
  | breaks sets stage' many =>
    cases ranking_of_set known (rankings_of_sets sets) known'
    cases stage
  | @pauses before mid misses sets going few =>
    have enlists := enlists_spawnAll call.domain (.ranking c) (misses.take mid.permits) before
    cases ranking_of_set known (enlists.rankings.trans (rankings_of_sets sets)) known'
    cases stage
  | @joins before mid misses sets going enough busy =>
    have enlists := enlists_spawnAll call.domain (.ranking c) misses before
    cases ranking_of_set known (enlists.rankings.trans (rankings_of_sets sets)) known'
    cases stage
  | @returns before mid misses sets ended =>
    cases ranking_of_set known (rankings_of_sets sets) known'
    have left : misses = [] := by
      refine (ended.resolve_left fun off => ?_).1
      rw [← sets_cancelled sets] at off
      exact absurd off (by simpa using going)
    cases sets with
    | looksUp stage' => exact Or.inr ⟨stage', left⟩
    | goesOn stage' => exact Or.inl (by rw [RankingCall.toDispatch?, stage', left])
    | waits stage' => exact Or.inl (by rw [RankingCall.toDispatch?, stage'])
  | idle ended => simp [open'] at ended

theorem OwnTurn.nothing_left {mid : RankingCall} {misses : List String} {jobs : Nat}
    (own : OwnTurn r agenda c call mid misses jobs call') (stage : call'.stage = .returned results time)
    (going : call'.cancelled = false) : misses = [] := by
  have ends := Ranker.nothing_left (r := { r with agenda }) own.known own.pending own.turn
    own.known' stage going
  rcases own.cases with ⟨expected, -, missing⟩ | ⟨dispatches, -⟩
  · rcases ends with silent | ⟨-, none'⟩
    · simp [RankingCall.toDispatch?, expected] at silent
    · rw [missing, ← none', missesOf, missesOf, served_of_now own.now]
  · rcases ends with done | ⟨expected, -⟩
    · exact Option.some.inj (dispatches.symm.trans done)
    · simp [RankingCall.toDispatch?, expected] at dispatches

/-- A ranking has gathered its results: what the cache answered as it looked its candidates up, and what
its jobs have come to by now. Unless it is called off each of the missing candidates has a job, and all
these are done. -/
structure Gathered (base r : Ranker σ) (c : Nat) (candidates : List String)
    (results : List Measurement) (time : Nat) : Prop where
  now : time = r.agenda.now
  found : results.Perm (hitsOf base candidates ++ found c r.jobs)
  ordered : results.Pairwise (Ranking.Ordered r.history r.wall)
  whole : ∃ call, r.rankings[c]? = some call ∧ (call.cancelled = false →
    roster c r.jobs = missesOf base candidates ∧ live c r.jobs = 0)

/-- A ranking has begun, in this turn of its own; and if it has returned, it did so with its results
gathered. -/
structure Looked (start : Ranker σ) (early late : List (Act σ)) (c : Nat) (call : RankingCall) :
    Prop where
  begun : Begun start early late c call
  popped : ∃ agenda, (start.after early).agenda.pop? = some (.ranking c, agenda)
  gathered : ∀ results time, call.stage = .returned results time →
    ∃ middle rest, late = middle ++ rest ∧
      Gathered (start.after early) (start.after (early ++ .turn :: middle)) c call.candidates results time

theorem Looked.beside {act : Act σ} (looked : Looked start early late c call)
    (beside : Beside (start.after (early ++ .turn :: late))
      ((start.after (early ++ .turn :: late)).perform act) c call call') :
    Looked start early (late ++ [act]) c call' where
  begun := looked.begun.beside beside
  popped := looked.popped
  gathered := by
    intro results time stage
    obtain ⟨middle, rest, rfl, gathered⟩ := looked.gathered results time (beside.stage ▸ stage)
    rw [beside.candidates]
    exact ⟨middle, rest ++ [act], List.append_assoc .., gathered⟩

theorem OwnTurn.gathered {base : Ranker σ} {mid : RankingCall} {misses : List String} {jobs : Nat}
    (own : OwnTurn r agenda c call mid misses jobs call') (restrained : Restrained r)
    (hits : call'.hits = hitsOf base call'.candidates) (stage : call'.stage = .returned results time)
    (whole : misses = [] → roster c (r.perform .turn).jobs = missesOf base call'.candidates) :
    Gathered base (r.perform .turn) c call'.candidates results time := by
  have returns := own.returnsFound restrained.crews stage
  rw [hits] at returns
  refine ⟨returns.now.trans (now_of_turn (turn_perform r)).symm, returns.found, returns.ordered,
    call', own.known', fun going => ⟨whole (own.nothing_left stage going), ?_⟩⟩
  have permitted := (restrained.perform .turn).permitted c call' own.known'
  rw [← permitted.running, permitted.finished results time stage going]

theorem looked_of_looksUp {mid : RankingCall} {misses : List String} {jobs : Nat}
    (restrained : Restrained (start.after acts))
    (own : OwnTurn (start.after acts) agenda c call mid misses jobs call')
    (stage : call.stage = .expected) (hits : mid.hits = hitsOf (start.after acts) call.candidates)
    (missing : misses = missesOf (start.after acts) call.candidates) : Looked start acts [] c call' where
  begun := begun_of_looksUp restrained.crews own stage hits missing
  popped := ⟨agenda, own.popped⟩
  gathered := by
    intro results time returned
    have begun := begun_of_looksUp restrained.crews own stage hits missing
    refine ⟨[], [], rfl, ?_⟩
    rw [after_append]
    refine own.gathered restrained begun.hits returned fun none' => ?_
    have nobody := ((restrained.crews.mustered.crewed c call own.known).expected stage).1
    rw [own.proceeds.posts, nobody, none', List.take_nil, List.append_nil,
      own.proceeds.candidates, ← missing, none']

theorem Looked.goesOn {mid : RankingCall} {misses : List String} {jobs : Nat}
    (looked : Looked start early late c call)
    (restrained : Restrained (start.after (early ++ .turn :: late)))
    (own : OwnTurn (start.after (early ++ .turn :: late)) agenda c call mid misses jobs call')
    (dispatches : call.toDispatch? = some misses) (hits : mid.hits = call.hits) :
    Looked start early (late ++ [.turn]) c call' where
  begun := looked.begun.goesOn restrained.crews own dispatches hits
  popped := looked.popped
  gathered := by
    intro results time returned
    have begun := looked.begun.goesOn restrained.crews own dispatches hits
    refine ⟨late ++ [.turn], [], (List.append_nil _).symm, ?_⟩
    rw [after_late]
    refine own.gathered restrained begun.hits returned fun none' => ?_
    obtain ⟨left, parts, rest⟩ := looked.begun.posts
    rw [rest misses dispatches, none', List.append_nil] at parts
    rw [own.proceeds.posts, none', List.take_nil, List.append_nil, own.proceeds.candidates]
    exact parts

/-- After any course each ranking is still to begin, or has begun in it with a turn of its own. -/
theorem looked_after (restrained : Restrained start) (nobody : start.rankings = [])
    (known : (start.after acts).rankings[c]? = some call) :
    call.stage = .expected ∨ ∃ early late, acts = early ++ .turn :: late ∧ Looked start early late c call :=
  since_begun restrained.crews nobody Looked.beside (looked_of_looksUp (restrained.after _))
    (fun looked => looked.goesOn (restrained.after _)) known

end Looking

section Serving

variable {r : Ranker σ} {agenda : Agenda Task} {c : Nat} {call : RankingCall} {ip : String}
  {entry : CacheEntry}

def answerOf (entry : CacheEntry) (ip : String) (label : Method) : Measurement :=
  { ip, latency := entry.servedLatency, loss := entry.loss, method := label }

/-- The cache has an entry for an address that does not answer any more, or none. -/
def Missing (r : Ranker σ) (ip : String) : Prop :=
  ∀ entry, r.cache.find? ip = some entry → entry.expiresAt ≤ r.wall

theorem served_of_found (used : r.settings.usesCache = true) (found : r.cache.find? ip = some entry) :
    r.served ip = entry.serve ip r.wall := by
  rw [served, if_pos used, found]
  rfl

theorem served_cached (used : r.settings.usesCache = true) (found : r.cache.find? ip = some entry)
    (ordered : entry.staleAt ≤ entry.expiresAt) (fresh : r.wall < entry.staleAt) :
    r.served ip = some (answerOf entry ip .cached) := by
  have valid : entry.isExpired r.wall = false := by simp [CacheEntry.isExpired]; omega
  have early : entry.isStale r.wall = false := by simp [CacheEntry.isStale]; omega
  rw [served_of_found used found]
  simp [CacheEntry.serve, valid, early, answerOf]

theorem served_stale (used : r.settings.usesCache = true) (found : r.cache.find? ip = some entry)
    (stale : entry.staleAt ≤ r.wall) (valid : r.wall < entry.expiresAt) :
    r.served ip = some (answerOf entry ip .stale) := by
  have valid' : entry.isExpired r.wall = false := by simp [CacheEntry.isExpired]; omega
  have late : entry.isStale r.wall = true := by simp [CacheEntry.isStale]; omega
  rw [served_of_found used found]
  simp [CacheEntry.serve, valid', late, answerOf]

theorem served_eq_none_iff (used : ∀ entry, r.cache.find? ip = some entry → r.settings.usesCache = true) :
    r.served ip = none ↔ r.Missing ip := by
  unfold Missing
  cases found : r.cache.find? ip with
  | none =>
    have silent : r.served ip = none := by
      unfold served
      split <;> simp [found]
    simp [silent]
  | some entry =>
    rw [served_of_found (used entry found) found]
    simp [CacheEntry.serve, CacheEntry.isExpired]

theorem returns_at_once (restrained : Restrained r) (popped : r.agenda.pop? = some (.ranking c, agenda))
    (known : r.rankings[c]? = some call) (stage : call.stage = .expected)
    (none' : missesOf r call.candidates = []) :
    ∃ call' results, (r.perform .turn).rankings[c]? = some call' ∧
      call'.stage = .returned results r.agenda.now := by
  have now : agenda.now = r.agenda.now := (Agenda.pop?_eq_some popped).2.2
  have turn : r.perform .turn = { r with agenda }.begin c call := by
    rw [perform_of_pop popped]
    simp only [handle, resumeRanking, known, stage]
  have nothing : (chosen r.settings call.candidates).filter
      (fun ip => ({ r with agenda }.served ip).isNone) = [] := by
    rw [served_of_now now]
    exact none'
  have idle : call.running = 0 := by
    have nobody := ((restrained.crews.mustered.crewed c call known).expected stage).1
    rw [(restrained.permitted c call known).running, live_of_nobody nobody]
  rw [turn, begin, partition_eq]
  dsimp only
  rw [nothing, if_neg (by simp), dispatch, join, if_pos (Or.inr idle), conclude]
  generalize (chosen r.settings call.candidates).filter _ = stale
  obtain ⟨recruits, enlists, -⟩ := enlists_refreshAll call.domain stale { r with agenda }
  have later : (refreshAll call.domain stale { r with agenda }).agenda.now = r.agenda.now := by
    rw [enlists.agenda, Agenda.now_wakeAll]
    exact now
  have inside : c < (refreshAll call.domain stale { r with agenda }).rankings.length := by
    rw [enlists.rankings]
    exact (List.getElem?_eq_some_iff.mp known).1
  rw [later]
  exact ⟨_, _, List.getElem?_set_self inside, rfl⟩

end Serving

section Protocol

variable {start base r : Ranker σ} {acts early late : List (Act σ)} {c : Nat}
  {call old : RankingCall} {ip : String} {m : Measurement}

/-- A job of a ranking is done with an outcome that was measured since some moment. -/
def MeasuredFor (base r : Ranker σ) (c : Nat) (ip : String) (m : Measurement) : Prop :=
  ∃ job ∈ r.jobs, job.owner = .ranking c ∧ job.ip = ip ∧ job.stage = .done m ∧
    MeasuredSince base r job.key m

/-- What a ranking returns, for its hits and since the moment at which it began. -/
structure Answers (base r : Ranker σ) (c : Nat) (call : RankingCall) (results : List Measurement)
    (time : Nat) : Prop where
  now : time = r.agenda.now
  hits : ∀ hit ∈ call.hits, hit ∈ results
  honest : ∀ m ∈ results, m ∈ call.hits ∨ ∃ ip, base.Missing ip ∧ MeasuredFor base r c ip m
  /-- Unless it was called off, it answers for each of the missing candidates. -/
  whole : ∃ call', r.rankings[c]? = some call' ∧ (call'.cancelled = false →
    ∀ ip ∈ chosen base.settings call.candidates, base.Missing ip →
      ∃ m ∈ results, MeasuredFor base r c ip m)

/-- How a ranking serves its candidates. It began with the turn of its own that is the next at `base`. -/
structure Revalidates (base : Ranker σ) (late : List (Act σ)) (c : Nat) (call : RankingCall) :
    Prop where
  began : ∃ agenda old, base.agenda.pop? = some (.ranking c, agenda) ∧
    base.rankings[c]? = some old ∧ old.stage = .expected
  fresh : ∀ ip ∈ chosen base.settings call.candidates, ∀ entry,
    base.cache.find? ip = some entry → base.wall < entry.staleAt →
      answerOf entry ip .cached ∈ call.hits
  /-- A stale entry is served, and its address is being refreshed then. -/
  stale : ∀ ip ∈ chosen base.settings call.candidates, ∀ entry,
    base.cache.find? ip = some entry → entry.staleAt ≤ base.wall → base.wall < entry.expiresAt →
      answerOf entry ip .stale ∈ call.hits ∧
        ((base.perform .turn).liveRefreshes.map Job.ip).count ip = 1
  /-- Nothing else is served, and no address that is served gets a job of the ranking. -/
  hits : ∀ hit ∈ call.hits, ¬base.Missing hit.ip ∧
    hit.ip ∉ roster c (base.after (.turn :: late)).jobs
  answers : ∀ results time, call.stage = .returned results time →
    ∃ middle rest, late = middle ++ rest ∧
      Answers base (base.after (.turn :: middle)) c call results time
  /-- With no candidate missing it returns in no time. -/
  prompt : (∀ ip ∈ chosen base.settings call.candidates, ¬base.Missing ip) →
    ∃ call' results, (base.perform .turn).rankings[c]? = some call' ∧
      call'.stage = .returned results base.agenda.now

theorem candidates_after (known : base.rankings[c]? = some old)
    (known' : (base.after acts).rankings[c]? = some call) : call.candidates = old.candidates := by
  have inside := (List.getElem?_eq_some_iff.mp known).1
  have orders := congrArg (·[c]?) (orders_after base acts)
  simp only [List.getElem?_map, known', Option.map_some] at orders
  rw [List.getElem?_append_left (by rwa [List.length_map]), List.getElem?_map, known,
    Option.map_some] at orders
  exact congrArg Prod.fst (Option.some.inj orders)

theorem measuredFor_of_done (boarded : Boarded base.flights base.agenda base.jobs)
    (nobody : roster c base.jobs = []) {job : Job} (member : job ∈ (base.after acts).jobs)
    (own : job.owner = .ranking c) (stage : job.stage = .done m) :
    MeasuredFor base (base.after acts) c job.ip m := by
  refine ⟨job, member, own, rfl, stage, ?_⟩
  obtain ⟨n, known⟩ := List.mem_iff_getElem?.mp member
  refine measuredSince_after boarded acts (fun old outcome before => ?_) known (by rw [Job.heard?, stage])
  obtain ⟨stage', known'⟩ := job_after base acts before
  cases known.symm.trans known'
  have posted' : old.ip ∈ roster c base.jobs := mem_roster.mpr ⟨old, List.mem_of_getElem? before, own, rfl⟩
  rw [nobody] at posted'
  cases posted'

/-- An entry of the cache is in use only if the cache is, and is stale before it expires. -/
def CacheWellFormed (r : Ranker σ) : Prop :=
  ∀ ip entry, r.cache.find? ip = some entry →
    r.settings.usesCache = true ∧ entry.staleAt ≤ entry.expiresAt

theorem cacheWellFormed_after (agree : JobsAgree start) (shards : 0 < start.cache.shardCount)
    (empty : ∀ ip, start.cache.find? ip = none) (acts : List (Act σ)) :
    CacheWellFormed (start.after acts) := by
  intro ip entry found
  obtain ⟨front, back, n, m, latest⟩ := latest_of_find? agree shards empty found
  rw [settings_after, latest.holds.staleAt]
  exact ⟨latest.used, Int.min_le_right _ _⟩

theorem cacheWellFormed_make (settings : Settings) (base : String) (disk : Disk) (prober : Prober σ)
    (memory : σ) (clock : WallClock) (acts : List (Act σ)) :
    CacheWellFormed ((make settings base disk prober memory clock).after acts) :=
  cacheWellFormed_after (jobsAgree_make ..) (shardCount_make_pos ..)
    (fun ip => ShardedCache.find?_make _ ip) acts

theorem missing_iff (wellFormed : CacheWellFormed r) (ip : String) : r.served ip = none ↔ r.Missing ip :=
  served_eq_none_iff fun entry found => (wellFormed ip entry found).1

theorem mem_missesOf (wellFormed : CacheWellFormed r) {candidates : List String} :
    ip ∈ missesOf r candidates ↔ ip ∈ chosen r.settings candidates ∧ r.Missing ip := by
  rw [missesOf, List.mem_filter, Option.isNone_iff_eq_none, missing_iff wellFormed]

theorem answers_of_gathered {middle : List (Act σ)} {results : List Measurement} {time : Nat}
    (boarded : Boarded base.flights base.agenda base.jobs) (wellFormed : CacheWellFormed base)
    (nobody : roster c base.jobs = []) (hits : call.hits = hitsOf base call.candidates)
    (posts : ∀ ip ∈ roster c (base.after middle).jobs, ip ∈ missesOf base call.candidates)
    (gathered : Gathered base (base.after middle) c call.candidates results time) :
    Answers base (base.after middle) c call results time where
  now := gathered.now
  hits := by
    intro hit member
    exact gathered.found.mem_iff.mpr (List.mem_append_left _ (hits ▸ member))
  honest := by
    intro m member
    rcases List.mem_append.mp (gathered.found.mem_iff.mp member) with hit | found
    · exact Or.inl (hits ▸ hit)
    · obtain ⟨job, member', own, stage⟩ := mem_found.mp found
      have posted' := posts job.ip (mem_roster.mpr ⟨job, member', own, rfl⟩)
      exact Or.inr ⟨job.ip, ((mem_missesOf wellFormed).mp posted').2,
        measuredFor_of_done boarded nobody member' own stage⟩
  whole := by
    obtain ⟨call', known', whole⟩ := gathered.whole
    refine ⟨call', known', fun going ip candidate missing => ?_⟩
    obtain ⟨all, idle⟩ := whole going
    have posted' := (mem_missesOf wellFormed).mpr ⟨candidate, missing⟩
    obtain ⟨job, member, own, rfl⟩ := mem_roster.mp (all ▸ posted')
    -- None of its jobs is alive, and this is one of them.
    have done : job.isDone = true := by
      have least := le_totalOf (liveOf c) member
      rw [← live, idle] at least
      simpa [liveOf, own] using least
    obtain ⟨m, stage⟩ : ∃ m, job.stage = .done m := by
      unfold Job.isDone at done
      split at done
      · exact ⟨_, ‹_›⟩
      · cases done
    exact ⟨m, gathered.found.mem_iff.mpr (List.mem_append_right _ (mem_found.mpr ⟨job, member, own, stage⟩)),
      measuredFor_of_done boarded nobody member own stage⟩

theorem revalidates_of_looked (restrained : Restrained start) (guarded : ∀ acts, Guarded (start.after acts))
    (wellFormed : ∀ acts, CacheWellFormed (start.after acts))
    (known : (start.after (early ++ .turn :: late)).rankings[c]? = some call)
    (looked : Looked start early late c call) : Revalidates (start.after early) late c call := by
  have course (acts : List (Act σ)) : start.after (early ++ .turn :: acts) =
      (start.after early).after (.turn :: acts) := after_append ..
  have guarded' : Guarded ((start.after early).perform .turn) := by
    have guarded' := guarded (early ++ [.turn])
    rw [course] at guarded'
    exact guarded'
  have gathered := looked.gathered
  simp only [course] at gathered
  obtain ⟨left, parts, -⟩ := looked.begun.posts
  obtain ⟨old, before, stage⟩ := looked.begun.expected
  obtain ⟨agenda, popped⟩ := looked.popped
  have hits := looked.begun.hits
  rw [course] at known parts
  have restrained' := restrained.after early
  have wellFormed' := wellFormed early
  -- how the course came to the look does not matter from here on
  generalize start.after early = base at *
  have candidates := candidates_after before known
  have nobody : roster c base.jobs = [] :=
    ((restrained'.crews.mustered.crewed c old before).expected stage).1
  have now : agenda.now = base.agenda.now := (Agenda.pop?_eq_some popped).2.2
  constructor
  case began => exact ⟨agenda, old, popped, before, stage⟩
  case fresh =>
    intro ip candidate entry found fresh
    obtain ⟨used, ordered⟩ := wellFormed' ip entry found
    rw [hits]
    exact List.mem_filterMap.mpr ⟨ip, candidate, served_cached used found ordered fresh⟩
  case stale =>
    intro ip candidate entry found stale valid
    have serves := served_stale (wellFormed' ip entry found).1 found stale valid
    rw [hits]
    refine ⟨List.mem_filterMap.mpr ⟨ip, candidate, serves⟩, ?_⟩
    have turn : RankingTurn { base with agenda } c old (base.perform .turn) := by
      rw [perform_of_pop popped]
      exact resumeRanking_turn before
    refine (guarded'.mem_refreshing ip).mp (listed_of_stale turn stage (candidates ▸ candidate) ?_)
    rw [servesStale, served_of_now now, serves]
    rfl
  case hits =>
    intro hit member
    rw [hits] at member
    obtain ⟨ip, candidate, serves⟩ := List.mem_filterMap.mp member
    rw [ip_of_served serves, ← missing_iff wellFormed', serves]
    refine ⟨by simp, fun posted' => ?_⟩
    have missing : ip ∈ missesOf base call.candidates := parts ▸ List.mem_append_left _ posted'
    have silent := (missing_iff wellFormed' ip).mpr ((mem_missesOf wellFormed').mp missing).2
    rw [serves] at silent
    cases silent
  case answers =>
    intro results time returned
    obtain ⟨middle, rest, rfl, gathered'⟩ := gathered results time returned
    refine ⟨middle, rest, rfl,
      answers_of_gathered restrained'.crews.boarded wellFormed' nobody hits (fun ip posted' => ?_) gathered'⟩
    have later := mem_roster_after posted' rest
    rw [← after_append] at later
    exact parts ▸ List.mem_append_left _ later
  case prompt =>
    intro served
    refine returns_at_once restrained' popped before stage ?_
    rw [← candidates]
    refine List.eq_nil_iff_forall_not_mem.mpr fun ip member => ?_
    obtain ⟨candidate, missing⟩ := (mem_missesOf wellFormed').mp member
    exact served ip candidate missing

theorem endsAt_of_over (crews : CrewsAgree r) (known : r.rankings[c]? = some call)
    (ended : call.isOver = true) : ∃ time, EndsAt r call time := by
  unfold RankingCall.isOver at ended
  split at ended
  · rename_i results time stage
    exact ⟨time, Or.inl ⟨results, stage⟩⟩
  · rename_i stage
    exact ⟨0, Or.inr ⟨stage, ((crews.mustered.crewed c call known).broken stage).2⟩⟩
  · cases ended

/-- What holds of the refreshes and the rankings after a course. -/
structure Revalidation (start : Ranker σ) (acts : List (Act σ)) : Prop where
  /-- An address is listed as being refreshed while just one refresh of it is live, and no more ever
  are. -/
  guard : ∀ ip, ((start.after acts).liveRefreshes.map Job.ip).count ip =
    if ip ∈ (start.after acts).refreshing then 1 else 0
  rankings : ∀ c call, (start.after acts).rankings[c]? = some call →
    call.stage = .expected ∨ ∃ early late, acts = early ++ .turn :: late ∧
      Revalidates (start.after early) late c call
  /-- Left alone each ranking comes to its end: it returns, unless it breaks for its permits. -/
  ends : ∃ steps, ∀ (c : Nat) call,
    (start.after (acts ++ alone steps (start.after acts))).rankings[c]? = some call →
      ∃ time, EndsAt start call time

/-- Stale entries are served while they are measured anew, each by one refresh at a time; once nothing
goes on beside, the wait for the refreshes leaves none. -/
theorem stale_while_revalidate (settings : Settings) (base : String) (disk : Disk)
    (prober : Prober σ) (memory : σ) (clock : WallClock) (acts : List (Act σ)) :
    Revalidation (make settings base disk prober memory clock) acts ∧
      ∀ (s : Session σ) (r : Ranker σ), (∀ r ∈ s.rankers, r.Reached) →
        (s.passUntil (fun r => r.liveRefreshes.isEmpty) s.horizon).current? = some r →
        (∀ call ∈ r.rankings, call.isOver = true) →
          ∃ r', s.wait.current? = some r' ∧ r'.liveRefreshes = [] ∧ r'.refreshing = [] := by
  refine ⟨?_, fun s r reached known ended => s.calm_wait reached known ended⟩
  have restrained := restrained_make settings base disk prober memory clock
  have reached (acts : List (Act σ)) : Reached ((make settings base disk prober memory clock).after acts) :=
    after_induction (fun _ act reached => .acts reached act) (.made ..) acts
  have wellFormed := cacheWellFormed_make settings base disk prober memory clock
  have nobody : (make settings base disk prober memory clock).rankings = [] := rfl
  generalize make settings base disk prober memory clock = start at *
  have guarded (acts : List (Act σ)) : Guarded (start.after acts) := (reached acts).waitInvariant.guarded
  constructor
  case guard =>
    intro ip
    rw [← (guarded acts).perm.count_eq, (guarded acts).once.count]
  case rankings =>
    intro c call known
    rcases looked_after restrained nobody known with stage | ⟨early, late, rfl, looked⟩
    · exact Or.inl stage
    · exact Or.inr ⟨early, late, rfl, revalidates_of_looked restrained guarded wellFormed known looked⟩
  case ends =>
    obtain ⟨steps, quiet⟩ := quiet_eventually (start.after acts) (restrained.after acts).crews.boarded
    refine ⟨steps, fun c call known => ?_⟩
    rw [← after_append] at quiet
    have restrained' := restrained.after (acts ++ alone steps (start.after acts))
    obtain ⟨time, ends⟩ :=
      endsAt_of_over restrained'.crews known (restrained'.over_of_quiet quiet known)
    rw [EndsAt, settings_after] at ends
    exact ⟨time, ends⟩

/-- An entry is stale just when it is asked for again: it is served, one refresh of it goes on, and
after the wait none does. -/
theorem stale_while_revalidate_on_the_instant :
    let scripts := Scripts.direct .empty "10.0.0.2" { usual := some ⟨5, some ⟨20, .tls⟩⟩ }
    let start := make {} "" .empty Scripts.prober scripts ⟨0⟩
    let acts : List (Act Scripts) :=
      [.request ["10.0.0.2"] "example" 0 none, .turn, .turn, .tick, .turn, .tick, .turn, .tick, .turn,
        .turn, .setClock ⟨3000000⟩, .request ["10.0.0.2"] "example" 0 none, .turn]
    let s : Session Scripts :=
      { disk := .empty, clock := ⟨3000000⟩, memory := scripts, time := 15
        rankers := [start.after acts], inUse := true }
    (start.after acts).refreshing = ["10.0.0.2"] ∧
      ((start.after acts).liveRefreshes.map Job.ip).count "10.0.0.2" = 1 ∧
      ∃ r, s.wait.current? = some r ∧ r.liveRefreshes = [] ∧ r.refreshing = [] := by
  intro scripts start acts s
  obtain ⟨revalidation, waits⟩ :=
    stale_while_revalidate {} "" .empty Scripts.prober scripts ⟨0⟩ acts
  have listed : (start.after acts).refreshing = ["10.0.0.2"] := by
    dsimp only [acts, start, scripts]
    decide +kernel
  have guard := revalidation.guard "10.0.0.2"
  rw [listed] at guard
  have ends : ((s.passUntil (fun r => r.liveRefreshes.isEmpty) s.horizon).current?.map fun r =>
      r.rankings.all RankingCall.isOver) = some true := by
    dsimp only [s, acts, start, scripts]
    decide +kernel
  obtain ⟨r, known, ended⟩ := Option.map_eq_some_iff.mp ends
  refine ⟨listed, guard, waits s r ?_ known (List.all_eq_true.mp ended)⟩
  intro r member
  rw [List.mem_singleton.mp member]
  exact after_induction (fun _ act reached => .acts reached act) (.made ..) acts

end Protocol

end Ranker

end LatencyRank
