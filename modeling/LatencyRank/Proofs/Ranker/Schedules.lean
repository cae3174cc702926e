import Mathlib
import LatencyRank.Proofs.Ranker.Revalidation
import LatencyRank.Proofs.Ranker.Settlement

/-!
What a ranking comes to does not depend on the schedule: how many probes may run at once, how long they
take and in which order the candidates stand. It takes a ranker that has nothing else to do and does
without the cache, and a prober whose answers are settled for each address. Two such rankings return the
same results and leave the same histories, but for the times of failures; if no probe takes time, the
results also come in the same order.
-/

namespace LatencyRank

namespace Ranker

open Prober

section AtRest

variable {σ : Type} {r : Ranker σ} {candidates : List String} {domain : String} {acts : List (Act σ)}
  {results : List Measurement} {outcomes : String → Nat → Option Sample} {moment : Int → Prop}

/-- A ranker with nothing to do, which measures all candidates of a ranking and has permits enough. -/
structure AtRest (r : Ranker σ) : Prop where
  reached : ∃ settings base disk prober memory clock acts,
    r = (make settings base disk prober memory clock).after acts
  quiet : r.Quiet
  uncached : r.settings.usesCache = false
  unlimited : r.settings.candidateLimit = 0
  permits : r.settings.concurrency ≤ permitLimit

/-- The ranker with a ranking that was asked of it, to start at once and not to be called off. -/
def asked (r : Ranker σ) (candidates : List String) (domain : String) : Ranker σ :=
  r.request candidates domain 0 none

/-- In these acts, which the ranker comes to by itself, the ranking has returned these results. -/
structure Ranks (r : Ranker σ) (candidates : List String) (domain : String) (acts : List (Act σ))
    (results : List Measurement) : Prop where
  own : ∀ act ∈ acts, act.isOwn = true
  returned : ∃ call time, ((r.asked candidates domain).after acts).rankings[r.rankings.length]? = some call ∧
    call.stage = .returned results time

theorem AtRest.started (rests : AtRest r) :
    ∃ start before, r = start.after before ∧ Restrained start ∧ start.rankings = [] := by
  obtain ⟨settings, base, disk, prober, memory, clock, acts, reached⟩ := rests.reached
  exact ⟨_, acts, reached, restrained_make .., rfl⟩

theorem AtRest.restrained (rests : AtRest r) : Restrained r := by
  obtain ⟨start, before, rfl, restrained, -⟩ := rests.started
  exact restrained.after before

theorem AtRest.jobsAgree (rests : AtRest r) : JobsAgree r := by
  obtain ⟨settings, base, disk, prober, memory, clock, acts, rfl⟩ := rests.reached
  exact (jobsAgree_make ..).after acts

theorem requested_of_allOwn (own : ∀ act ∈ acts, act.isOwn = true) : requested acts = [] := by
  induction acts with
  | nil => rfl
  | cons act rest ih =>
    have first := requested_of_own (own act List.mem_cons_self)
    have later := ih fun other member => own other (List.mem_cons_of_mem _ member)
    rw [requested_cons, first, later]
    rfl

theorem ranking_of_own (r : Ranker σ) (candidates : List String) (domain : String)
    (own : ∀ act ∈ acts, act.isOwn = true) :
    ∃ call, ((r.asked candidates domain).after acts).rankings[r.rankings.length]? = some call ∧
      call.candidates = candidates := by
  have orders := congrArg (·[r.rankings.length]?) (orders_after (r.asked candidates domain) acts)
  rw [requested_of_allOwn own, List.append_nil] at orders
  simp only [List.getElem?_map, asked, request, List.getElem?_concat_length] at orders
  obtain ⟨call, known, order⟩ := Option.map_eq_some_iff.mp orders
  exact ⟨call, known, congrArg Prod.fst order⟩

theorem AtRest.solitary (rests : AtRest r) : Solitary r.jobs.length r.rankings.length domain
    (r.asked candidates domain) := by
  have restrained := rests.restrained
  have nobody := restrained.crews.mustered.strange r.rankings.length (Nat.le_refl _)
  have outside {n : Nat} {job : Job} (late : r.jobs.length ≤ n)
      (known : (r.asked candidates domain).jobs[n]? = some job) : False :=
    absurd (List.getElem?_eq_some_iff.mp known).1 (Nat.not_lt.mpr late)
  constructor
  case uncached => exact rests.uncached
  case others =>
    intro d call different known
    rcases ranking_of_request known with before | ⟨here, -⟩
    · exact restrained.over_of_quiet rests.quiet before
    · exact absurd here different
  case own =>
    intro call known
    rcases ranking_of_request known with before | ⟨-, rfl⟩
    · exact absurd (List.getElem?_eq_some_iff.mp before).1 (Nat.lt_irrefl _)
    · rfl
  case longer => exact Nat.le_refl _
  case early => exact fun n job _ known => done_of_quiet restrained.crews.boarded rests.quiet known
  case foreign =>
    intro n job _ known own
    have member : job.ip ∈ roster r.rankings.length r.jobs :=
      mem_roster.mpr ⟨job, List.mem_of_getElem? known, own, rfl⟩
    rw [nobody] at member
    cases member
  case crew => exact fun n job late known => (outside late known).elim
  case distinct =>
    change (roster r.rankings.length r.jobs).Nodup
    rw [nobody]
    exact List.nodup_nil
  case lone => exact fun n job late known => (outside late known).elim

theorem AtRest.secluded (rests : AtRest r) (follows : r.prober.Follows r.memory outcomes) :
    Secluded r.history r.jobs.length r.rankings.length domain outcomes moment
      (r.asked candidates domain) := by
  have outside {n : Nat} {job : Job} (late : r.jobs.length ≤ n)
      (known : (r.asked candidates domain).jobs[n]? = some job) : False :=
    absurd (List.getElem?_eq_some_iff.mp known).1 (Nat.not_lt.mpr late)
  have summons : r.agenda.summons = [] := by rw [Agenda.summons, rests.quiet.1, rests.quiet.2]; rfl
  refine ⟨rests.restrained.perform (.request ..), rests.jobsAgree.perform (.request ..), rests.solitary,
    ⟨?_, ?_⟩, ⟨fun _ => 0, ?_, ?_, fun _ _ => rfl⟩, ⟨rfl, fun _ _ => rfl, ?_⟩⟩
  · change (r.agenda.wake (.ranking r.rankings.length)).summons.count _ = 0
    rw [Agenda.count_summons_wake_of_ne _ (by simp), summons]
    rfl
  · intro call known
    rcases ranking_of_request known with before | ⟨-, rfl⟩
    · exact absurd (List.getElem?_eq_some_iff.mp before).1 (Nat.lt_irrefl _)
    · rfl
  · have same : onward outcomes (fun _ => 0) = outcomes := by
      funext ip k
      rw [onward, Nat.zero_add]
    rw [same]
    exact follows
  · exact fun n job late known => (outside late known).elim
  · exact fun n job late known => (outside late known).elim

theorem AtRest.distinct (rests : AtRest r) (domain : String) (distinct : candidates.Nodup)
    (own : ∀ act ∈ acts, act.isOwn = true) :
    (roster r.rankings.length ((r.asked candidates domain).after acts).jobs).Nodup := by
  obtain ⟨call, known, same⟩ := ranking_of_own r candidates domain own
  obtain ⟨start, before, rfl, restrained, nobody⟩ := rests.started
  have course : ((start.after before).asked candidates domain).after acts =
      start.after (before ++ .request candidates domain 0 none :: acts) :=
    (after_append start before (.request candidates domain 0 none :: acts)).symm
  rw [course] at known ⊢
  exact roster_nodup restrained.crews nobody known (same ▸ distinct)

theorem AtRest.after (rests : AtRest r) (domain : String) (follows : r.prober.Follows r.memory outcomes)
    (distinct : candidates.Nodup) (own : ∀ act ∈ acts, act.isOwn = true)
    (now : ∀ acts : List (Act σ), (∀ act ∈ acts, act.isOwn = true) →
      moment ((r.asked candidates domain).after acts).wall) :
    Secluded r.history r.jobs.length r.rankings.length domain outcomes moment
      ((r.asked candidates domain).after acts) := by
  induction acts using List.reverseRecOn with
  | nil => exact rests.secluded follows
  | append_singleton acts act ih =>
    have before : ∀ act ∈ acts, act.isOwn = true := fun other member =>
      own other (List.mem_append_left _ member)
    have distinct' := rests.distinct domain distinct own
    rw [after_append] at distinct' ⊢
    exact (ih before).perform (own act (by simp)) distinct' (now acts before)

theorem AtRest.timeless (rests : AtRest r) (instant : r.prober.Instant r.memory)
    (own : ∀ act ∈ acts, act.isOwn = true) :
    Timeless ((r.asked candidates domain).after acts) ∧
      ((r.asked candidates domain).after acts).wall = r.wall := by
  induction acts using List.reverseRecOn with
  | nil =>
    refine ⟨⟨?_, instant⟩, congrArg r.clock.read ?_⟩
    · exact (Agenda.sleeping_wake ..).trans rests.quiet.2
    · exact Agenda.now_wake ..
  | append_singleton acts act ih =>
    obtain ⟨timeless, same⟩ := ih fun other member => own other (List.mem_append_left _ member)
    have boarded := boarded_after (rests.jobsAgree.perform (.request candidates domain 0 none)).boarded acts
    obtain ⟨timeless', same'⟩ := timeless.perform boarded (own act (by simp))
    rw [after_append]
    exact ⟨timeless', same'.trans same⟩

end AtRest

section Returning

variable {σ : Type} {r : Ranker σ} {candidates : List String} {domain : String} {acts : List (Act σ)}
  {results : List Measurement} {outcomes : String → Nat → Option Sample} {moment : Int → Prop}

theorem began_later {start : Ranker σ} {before early late : List (Act σ)} {old : RankingCall}
    (split : before ++ .request candidates domain 0 none :: acts = early ++ .turn :: late)
    (known : (start.after early).rankings[(start.after before).rankings.length]? = some old) :
    ∃ middle, early = before ++ .request candidates domain 0 none :: middle ∧
      acts = middle ++ .turn :: late := by
  rcases List.append_eq_append_iff.mp split with ⟨front, rfl, rest⟩ | ⟨back, rfl, rest⟩
  · cases front with
    | nil => cases rest
    | cons act middle =>
      obtain ⟨rfl, rest'⟩ := List.cons.inj rest
      exact ⟨middle, rfl, rest'⟩
  · have orders := congrArg List.length (orders_after (start.after early) back)
    rw [← after_append, List.length_append, List.length_map, List.length_map] at orders
    have inside := (List.getElem?_eq_some_iff.mp known).1
    omega

theorem AtRest.missing (rests : AtRest r) (candidates : List String) {base : Ranker σ}
    (settings : base.settings = r.settings) :
    hitsOf base candidates = [] ∧ missesOf base candidates = candidates := by
  have silent (ip : String) : base.served ip = none := by
    rw [served, settings, rests.uncached]
    rfl
  have all : chosen base.settings candidates = candidates := by
    rw [settings, chosen, if_pos rests.unlimited]
  rw [hitsOf, missesOf, all]
  exact ⟨List.filterMap_eq_nil_iff.mpr fun ip _ => silent ip,
    List.filter_eq_self.mpr fun ip _ => by simp [silent]⟩

/-- What the ranking has come to: the results of all outcomes for its candidates, in the order of the
histories of that moment, and the histories that they leave. -/
structure ComesTo (r : Ranker σ) (candidates : List String)
    (outcomes : String → Nat → Option Sample) (moment : Int → Prop) (results : List Measurement)
    (r' : Ranker σ) : Prop where
  found : results.Perm (candidates.map fun ip => resultOf r.settings ip (allOf r.settings outcomes ip))
  ordered : ∃ book wall, moment wall ∧ BookAfter r.history r.settings outcomes moment candidates book ∧
    results.Pairwise (Ranking.Ordered book wall)
  history : BookAfter r.history r.settings outcomes moment candidates r'.history

/-- The ranking had its results gathered at some moment, and has had no job but for a candidate. -/
theorem AtRest.gathered (rests : AtRest r) (ranks : Ranks r candidates domain acts results) :
    (∀ ip ∈ roster r.rankings.length ((r.asked candidates domain).after acts).jobs, ip ∈ candidates) ∧
      ∃ early late base time, acts = early ++ late ∧ base.settings = r.settings ∧
        Gathered base ((r.asked candidates domain).after early) r.rankings.length candidates results
          time := by
  obtain ⟨own, call, time, known, stage⟩ := ranks
  obtain ⟨_, known', candidates'⟩ := ranking_of_own r candidates domain own
  cases known.symm.trans known'
  obtain ⟨start, before, rfl, restrained, nobody⟩ := rests.started
  have course (acts : List (Act σ)) : ((start.after before).asked candidates domain).after acts =
      start.after (before ++ .request candidates domain 0 none :: acts) :=
    (after_append start before (.request candidates domain 0 none :: acts)).symm
  have settings (acts : List (Act σ)) : (start.after acts).settings = (start.after before).settings := by
    rw [settings_after, settings_after]
  rw [course] at known ⊢
  rcases looked_after restrained nobody known with fresh | ⟨early, late, split, looked⟩
  · rw [fresh] at stage
    cases stage
  obtain ⟨old, before', -⟩ := looked.begun.expected
  obtain ⟨left, parts, -⟩ := looked.begun.posts
  obtain ⟨middle, rfl, rfl⟩ := began_later split before'
  obtain ⟨front, rest, rfl, gathered⟩ := looked.gathered results time stage
  rw [candidates'] at parts gathered
  rw [← split, (rests.missing candidates (settings _)).2] at parts
  have moment : before ++ .request candidates domain 0 none :: middle ++ .turn :: front =
      before ++ .request candidates domain 0 none :: (middle ++ .turn :: front) := by simp
  rw [moment, ← course (middle ++ .turn :: front)] at gathered
  exact ⟨fun ip member => parts ▸ List.mem_append_left _ member,
    middle ++ .turn :: front, rest, _, time, by simp, settings _, gathered⟩

theorem AtRest.comesTo (rests : AtRest r) (follows : r.prober.Follows r.memory outcomes)
    (distinct : candidates.Nodup) (ranks : Ranks r candidates domain acts results)
    (now : ∀ acts : List (Act σ), (∀ act ∈ acts, act.isOwn = true) →
      moment ((r.asked candidates domain).after acts).wall) :
    ComesTo r candidates outcomes moment results ((r.asked candidates domain).after acts) := by
  obtain ⟨posts, early, late, base, time, rfl, settings, gathered⟩ := rests.gathered ranks
  obtain ⟨own, call, time', known, stage⟩ := ranks
  have secluded {acts : List (Act σ)} (own : ∀ act ∈ acts, act.isOwn = true) :=
    rests.after domain follows distinct own now
  have fixed (acts : List (Act σ)) : ((r.asked candidates domain).after acts).settings = r.settings :=
    settings_after ..
  have own' : ∀ act ∈ early, act.isOwn = true := fun act member => own act (List.mem_append_left _ member)
  obtain ⟨hits, misses⟩ := rests.missing candidates settings
  obtain ⟨call', known', whole⟩ := gathered.whole
  obtain ⟨crew, idle⟩ := whole ((secluded own').uncalled.going call' known')
  rw [misses] at crew
  -- once the ranking has returned, its jobs are still done
  have idle' : live r.rankings.length ((r.asked candidates domain).after (early ++ late)).jobs = 0 := by
    have permitted := (secluded own).restrained.permitted _ call known
    rw [← permitted.running]
    exact permitted.finished results time' stage ((secluded own).uncalled.going call known)
  constructor
  case found =>
    have found := gathered.found
    rw [hits, List.nil_append, (secluded own').found idle, crew, fixed] at found
    exact found
  case ordered =>
    have book := (secluded own').book idle fun ip => by rw [crew]
    rw [fixed] at book
    exact ⟨_, _, now early own', book, gathered.ordered⟩
  case history =>
    have book := (secluded own).book idle' fun ip => ⟨posts ip, fun candidate => ?_⟩
    · rw [fixed] at book
      exact book
    · rw [after_append]
      refine mem_roster_after ?_ late
      rw [crew]
      exact candidate

theorem isOwn_alone (steps : Nat) (r : Ranker σ) : ∀ act ∈ alone steps r, act.isOwn = true := by
  induction steps generalizing r with
  | zero => simp [alone]
  | succ steps ih =>
    intro act member
    rcases List.mem_cons.mp member with rfl | later
    · unfold nextAct
      split <;> rfl
    · exact ih _ act later

theorem AtRest.returns (rests : AtRest r) (candidates : List String) (domain : String) :
    ∃ steps results, Ranks r candidates domain (alone steps (r.asked candidates domain)) results := by
  have restrained : Restrained (r.asked candidates domain) := rests.restrained.perform (.request ..)
  obtain ⟨steps, quiet⟩ := quiet_eventually (r.asked candidates domain) restrained.crews.boarded
  have own := isOwn_alone steps (r.asked candidates domain)
  have restrained' := restrained.after (alone steps (r.asked candidates domain))
  obtain ⟨call, known, -⟩ := ranking_of_own r candidates domain own
  obtain ⟨time, ⟨results, stage⟩ | ⟨-, many⟩⟩ :=
    endsAt_of_over restrained'.crews known (restrained'.over_of_quiet quiet known)
  · exact ⟨steps, results, own, call, time, known, stage⟩
  · have settings : ((r.asked candidates domain).after
        (alone steps (r.asked candidates domain))).settings = r.settings := settings_after ..
    rw [settings] at many
    exact absurd many (Nat.not_lt.mpr (Nat.max_le.mpr ⟨rests.permits, by decide⟩))

end Returning

section Comparing

variable {σ τ : Type} {r r' : Ranker σ} {t t' : Ranker τ} {candidates candidates' : List String}
  {domain : String} {outcomes : String → Nat → Option Sample} {moment moment' : Int → Prop}
  {results results' : List Measurement}

/-- Two rankers that differ at most in how many probes may run at once, in the prober and in the time. -/
structure Alike (r : Ranker σ) (t : Ranker τ) : Prop where
  settings : t.settings = { r.settings with concurrency := t.settings.concurrency }
  history : t.history = r.history

/-- How two rankings that began at `r` and `t` and ended at `r'` and `t'` agree. -/
structure Agree (r r' : Ranker σ) (t t' : Ranker τ) (results results' : List Measurement) : Prop where
  found : results'.Perm results
  records : ∀ ip, (t'.history.records.find? ip).map FailureRecord.timeless =
    (r'.history.records.find? ip).map FailureRecord.timeless
  /-- If no probe takes time the results come in the same order. -/
  order : r.prober.Instant r.memory → t.prober.Instant t.memory → t.wall = r.wall → results' = results

theorem Alike.bookAfter {measured : List String} {book : HistoryBook} (alike : Alike r t)
    (after : BookAfter t.history t.settings outcomes moment measured book) :
    BookAfter r.history r.settings outcomes moment measured book := by
  rw [alike.history, alike.settings] at after
  exact ⟨after.frame, after.entered, after.untouched⟩

theorem ComesTo.perm (first : ComesTo r candidates outcomes moment results r')
    (second : ComesTo t candidates' outcomes moment' results' t') (alike : Alike r t)
    (order : candidates'.Perm candidates) : results'.Perm results := by
  have found := second.found
  rw [alike.settings] at found
  exact found.trans ((order.map _).trans first.found.symm)

theorem ComesTo.order {wall : Int} (first : ComesTo r candidates outcomes (· = wall) results r')
    (second : ComesTo t candidates' outcomes (· = wall) results' t') (alike : Alike r t)
    (order : candidates'.Perm candidates) (distinct : candidates.Nodup) : results' = results := by
  obtain ⟨book, _, now, after, ordered⟩ := first.ordered
  obtain ⟨book', _, now', after', ordered'⟩ := second.ordered
  rw [now] at ordered
  rw [now'] at ordered'
  have weights (ip : String) := (after.weight (alike.bookAfter after') (fun ip => order.mem_iff) ip wall).2
  have ips : (results.map Measurement.ip).Perm candidates := by
    have found := first.found.map Measurement.ip
    have own : Measurement.ip ∘ (fun ip => resultOf r.settings ip (allOf r.settings outcomes ip)) = id :=
      funext fun ip => ip_measure ..
    rwa [List.map_map, own, List.map_id] at found
  refine Ranking.eq_of_ordered (first.perm second alike order) (ips.nodup_iff.mpr distinct) ordered ?_
  exact ordered'.imp fun before => (Ranking.ordered_congr weights).mp before

/-- Two rankings of the same candidates that begin alike, each of a ranker by itself, come to the same,
whatever their schedules; and each of them returns. -/
theorem schedule_irrelevant (rests : AtRest r) (rests' : AtRest t) (alike : Alike r t)
    (follows : r.prober.Follows r.memory outcomes) (follows' : t.prober.Follows t.memory outcomes)
    (distinct : candidates.Nodup) (order : candidates'.Perm candidates) (domain : String) :
    (∃ steps results, Ranks r candidates domain (alone steps (r.asked candidates domain)) results) ∧
      (∃ steps results, Ranks t candidates' domain (alone steps (t.asked candidates' domain)) results) ∧
      ∀ acts acts' results results', Ranks r candidates domain acts results →
        Ranks t candidates' domain acts' results' →
          Agree r ((r.asked candidates domain).after acts) t ((t.asked candidates' domain).after acts')
            results results' := by
  refine ⟨rests.returns candidates domain, rests'.returns candidates' domain, ?_⟩
  intro acts acts' results results' ranks ranks'
  have distinct' : candidates'.Nodup := order.nodup_iff.mpr distinct
  have first : ComesTo r candidates outcomes (fun _ => True) results _ :=
    rests.comesTo follows distinct ranks fun _ _ => trivial
  have second : ComesTo t candidates' outcomes (fun _ => True) results' _ :=
    rests'.comesTo follows' distinct' ranks' fun _ _ => trivial
  constructor
  case found => exact first.perm second alike order
  case records => exact first.history.timeless (alike.bookAfter second.history) fun ip => order.mem_iff
  case order =>
    intro instant instant' same
    -- The moments are at the wall clock's time now, since no probe took any, and so the weights agree.
    have first : ComesTo r candidates outcomes (· = r.wall) results _ :=
      rests.comesTo follows distinct ranks fun _ own => (rests.timeless instant own).2
    have second : ComesTo t candidates' outcomes (· = r.wall) results' _ :=
      rests'.comesTo follows' distinct' ranks' fun _ own => (rests'.timeless instant' own).2.trans same
    exact first.order second alike order distinct

/-- One probe at a time or eight, slow ones or prompt ones, one order of the candidates or the other: the
results are the same, and if no probe takes time so is their order. -/
theorem schedule_irrelevant_of_two :
    let slow := Scripts.direct .empty "10.0.0.2" { usual := some ⟨5, some ⟨20, .tls⟩⟩ }
    let prompt := Scripts.direct .empty "10.0.0.2" { usual := some ⟨0, some ⟨20, .tls⟩⟩ }
    let ranker (concurrency : Nat) (scripts : Scripts) :=
      make { freshSeconds := 0, concurrency } "" .empty Scripts.prober scripts ⟨0⟩
    let one := ["10.0.0.2", "10.0.0.3"]
    let other := ["10.0.0.3", "10.0.0.2"]
    ∃ acts acts' acts'' results results' results'',
      Ranks (ranker 1 slow) one "example" acts results ∧
        Ranks (ranker 8 prompt) other "example" acts' results' ∧
        Ranks (ranker 1 prompt) one "example" acts'' results'' ∧
        results'.Perm results ∧ results' = results'' := by
  intro slow prompt ranker one other
  have rests (concurrency : Nat) (scripts : Scripts)
      (few : (ranker concurrency scripts).settings.concurrency ≤ permitLimit) :
      AtRest (ranker concurrency scripts) :=
    ⟨⟨_, _, _, _, _, _, [], rfl⟩, ⟨rfl, rfl⟩, rfl, rfl, few⟩
  have attempts (usual : Attempt) (ip : String) (k : Nat) :
      (Scripts.direct .empty "10.0.0.2" { usual := some usual }).attemptOf ip k =
        if ip = "10.0.0.2" then usual else .failure := by
    unfold Scripts.attemptOf Scripts.script Scripts.direct
    rw [Keyed.find?_insert]
    split <;> rfl
  have outcomes : prompt.outcomesOf = slow.outcomesOf := by
    funext ip k
    unfold Scripts.outcomesOf
    rw [attempts, attempts]
    split <;> rfl
  have swift : Scripts.prober.Instant prompt := Scripts.instant fun ip k => by
    rw [attempts]
    split <;> rfl
  have distinct : one.Nodup := by decide
  have order : other.Perm one := List.Perm.swap ..
  obtain ⟨returns, returns', agree⟩ :=
    schedule_irrelevant (r := ranker 1 slow) (t := ranker 8 prompt) (rests 1 slow (by decide))
      (rests 8 prompt (by decide))
      ⟨rfl, rfl⟩ slow.follows (outcomes ▸ prompt.follows) distinct order "example"
  obtain ⟨returns'', -, agree'⟩ :=
    schedule_irrelevant (r := ranker 1 prompt) (t := ranker 8 prompt) (rests 1 prompt (by decide))
      (rests 8 prompt (by decide))
      ⟨rfl, rfl⟩ prompt.follows prompt.follows distinct order "example"
  obtain ⟨steps, results, ranks⟩ := returns
  obtain ⟨steps', results', ranks'⟩ := returns'
  obtain ⟨steps'', results'', ranks''⟩ := returns''
  exact ⟨_, _, _, results, results', results'', ranks, ranks', ranks'',
    (agree _ _ _ _ ranks ranks').found, (agree' _ _ _ _ ranks'' ranks').order swift swift rfl⟩

/-- A ranking that wants more permits than there can be never returns, unlike one that wants eight. -/
theorem schedule_relevant :
    let ranking (concurrency : Nat) : Ranker Scripts :=
      (make { freshSeconds := 0, concurrency } "" .empty Scripts.prober .empty ⟨0⟩).asked ["10.0.0.2"]
        "example"
    let few := (ranking 8).after (alone 3 (ranking 8))
    let many := (ranking (permitLimit + 1)).after (alone 3 (ranking (permitLimit + 1)))
    few.rankings[0]?.map RankingCall.stage = some (.returned [.givenUp "10.0.0.2"] 0) ∧
      many.rankings[0]?.map RankingCall.stage = some .broken ∧ many.agenda.ready = [] ∧
      many.agenda.sleeping = [] := by
  decide +kernel

end Comparing

end Ranker

end LatencyRank
