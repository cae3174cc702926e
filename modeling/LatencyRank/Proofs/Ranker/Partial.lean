import Mathlib
import LatencyRank.Proofs.Ranker.Muster
import LatencyRank.Proofs.Ranking.Order

/-!
What a ranking returns, called off or not: what the cache answered when it looked its candidates up,
and what its jobs came to by then. Its jobs are for the first of the addresses that were missing at
that look, in their order, and once it is over they become no more.
-/

namespace LatencyRank

namespace Ranker

variable {σ : Type}

section Follows

variable {r r' : Ranker σ} {c : Nat} {call call' : RankingCall}

/-- What becomes of a ranking with an act. -/
inductive Follows (r : Ranker σ) (act : Act σ) (c : Nat) (call call' : RankingCall) : Prop
  | beside (beside : Beside r (r.perform act) c call call')
  | proceeds {agenda : Agenda Task} {before : Ranker σ} {mid : RankingCall} {misses : List String}
      {jobs : Nat} (isTurn : act = .turn) (now : agenda.now = r.agenda.now)
      (open' : call.isOver = false) (sets : Sets { r with agenda } call before mid misses)
      (proceeds : Proceeds { r with agenda } c call mid misses (r.perform act) call' jobs)

theorem follows_of_known (boarded : Boarded r.flights r.agenda r.jobs) {act : Act σ}
    (known : r.rankings[c]? = some call) (known' : (r.perform act).rankings[c]? = some call') :
    Follows r act c call call' := by
  cases passage_perform boarded act known' with
  | beside before beside =>
    cases before.symm.trans known
    exact .beside beside
  | enters new shape jobs called =>
    have inside := (List.getElem?_eq_some_iff.mp known).1
    omega
  | @turns agenda call isTurn popped before open' turn =>
    cases before.symm.trans known
    obtain ⟨_, _, _, _, sets, proceeds⟩ :=
      proceeds_of_turn (r := { r with agenda }) known open' turn known'
    exact .proceeds isTurn (Agenda.pop?_eq_some popped).2.2 open' sets proceeds

theorem follows_perform (boarded : Boarded r.flights r.agenda r.jobs) (act : Act σ)
    (known : r.rankings[c]? = some call) :
    ∃ call', (r.perform act).rankings[c]? = some call' ∧ Follows r act c call call' := by
  have longer := length_rankings_perform r act
  have inside := (List.getElem?_eq_some_iff.mp known).1
  obtain ⟨call', known'⟩ : ∃ call', (r.perform act).rankings[c]? = some call' :=
    ⟨_, List.getElem?_eq_getElem (by omega)⟩
  exact ⟨call', known', follows_of_known boarded known known'⟩

theorem Follows.cancelled {act : Act σ} (follows : Follows r act c call call')
    (off : call.cancelled = true) : call'.cancelled = true := by
  cases follows with
  | beside beside => exact beside.cancelled off
  | proceeds isTurn now open' sets proceeds => exact proceeds.cancelled.trans off

theorem Follows.candidates {act : Act σ} (follows : Follows r act c call call') :
    call'.candidates = call.candidates := by
  cases follows with
  | beside beside => exact beside.candidates
  | proceeds isTurn now open' sets proceeds => exact proceeds.candidates

theorem Follows.posts {act : Act σ} (follows : Follows r act c call call')
    (off : call.cancelled = true) : roster c (r.perform act).jobs = roster c r.jobs := by
  cases follows with
  | beside beside => exact beside.posts
  | proceeds isTurn now open' sets proceeds =>
    rw [proceeds.posts, (proceeds.ends off).1, List.take_zero, List.append_nil]

theorem roster_of_cancelled (crews : CrewsAgree r) (known : r.rankings[c]? = some call)
    (off : call.cancelled = true) (more : List (Act σ)) :
    roster c (r.after more).jobs = roster c r.jobs := by
  induction more generalizing r call with
  | nil => rfl
  | cons act rest ih =>
    obtain ⟨call', known', follows⟩ := follows_perform crews.boarded act known
    exact (ih (crews.perform act) known' (follows.cancelled off)).trans (follows.posts off)

theorem cancelled_after (crews : CrewsAgree r) (known : r.rankings[c]? = some call)
    (off : call.cancelled = true) (acts : List (Act σ)) :
    ∃ call', (r.after acts).rankings[c]? = some call' ∧ call'.cancelled = true ∧
      call'.candidates = call.candidates := by
  induction acts using List.reverseRecOn with
  | nil => exact ⟨call, known, off, rfl⟩
  | append_singleton acts act ih =>
    obtain ⟨call', known', off', candidates⟩ := ih
    obtain ⟨call'', known'', follows⟩ := follows_perform (crews.after acts).boarded act known'
    rw [after_append]
    exact ⟨call'', known'', follows.cancelled off', follows.candidates.trans candidates⟩

end Follows

section CalledOff

variable {r r' : Ranker σ} {c : Nat} {call : RankingCall}

theorem now_of_turn (turn : Turn r r') : r'.agenda.now = r.agenda.now := by
  cases turn with
  | rests empty => rfl
  | ofJob popped known turn =>
    have now := (Agenda.pop?_eq_some popped).2.2
    cases turn with
    | ends stage =>
      rw [finish_eq]
      exact (Agenda.now_wakeAll _ _).trans now
    | sleeps begins news memory sample delay attempts reported took fewer positive =>
      exact (Agenda.now_wakeAfter _ _ _).trans now
    | concludes begins news memory attempts reported took all =>
      exact (Agenda.now_wakeAll _ _).trans ((Agenda.now_wakeAll _ _).trans now)
    | givesUp begins news memory attempts reported failed =>
      exact (Agenda.now_wakeAll _ _).trans ((Agenda.now_wakeAll _ _).trans now)
    | _ => exact now
  | ofRanking popped known turn =>
    have now := (Agenda.pop?_eq_some popped).2.2
    rcases recruits_of_turn turn with rfl | ⟨recruits, r'', call'', news, enlisted, rfl, -⟩
    · exact now
    · have tasks := enlisted.enlists.agenda
      have later : r''.agenda.now = r.agenda.now := by
        rw [tasks, Agenda.now_wakeAll]
        exact now
      exact later
  | ofCancel popped known => exact (Agenda.now_wakeAll _ _).trans (Agenda.pop?_eq_some popped).2.2
  | lapses popped noJob noRanking => exact (Agenda.pop?_eq_some popped).2.2

/-- How a ranking of a ranker ends: it returns, or it breaks for the permits that it wants. -/
def EndsAt (r : Ranker σ) (call : RankingCall) (time : Nat) : Prop :=
  (∃ results, call.stage = .returned results time) ∨
    (call.stage = .broken ∧ permitLimit < max r.settings.concurrency 1)

/-- Called off and with its turn to come, a ranking that is left alone is over before time moves. -/
theorem over_at_once (crews : CrewsAgree r) (known : r.rankings[c]? = some call)
    (off : call.cancelled = true) (open' : call.isOver = false)
    (queued : .ranking c ∈ r.agenda.ready) :
    ∃ steps call', (r.after (alone steps r)).rankings[c]? = some call' ∧
      EndsAt r call' r.agenda.now := by
  induction toil : r.toil using Nat.strong_induction_on generalizing r call with
  | _ left ih =>
    have some' : r.agenda.ready ≠ [] := List.ne_nil_of_mem queued
    have next : r.nextAct = .turn := if_neg some'
    have less := toil_nextAct crews.boarded fun quiet => some' quiet.1
    rw [next] at less
    have now := now_of_turn (turn_perform r)
    have settings : (r.perform .turn).settings = r.settings := (fixed_perform r .turn).1
    have crews' := crews.perform .turn
    have one (steps : Nat) : r.after (alone (steps + 1) r) =
        (r.perform .turn).after (alone steps (r.perform .turn)) := by
      rw [alone, next]
      rfl
    obtain ⟨call', known', follows⟩ := follows_perform crews.boarded .turn known
    cases follows with
    | beside beside =>
      obtain ⟨steps, call'', known'', ends⟩ := ih _ (toil ▸ less) crews' known'
        (beside.cancelled off) ((isOver_of_stage beside.stage).trans open')
        ((beside.recalls open').ready queued) rfl
      refine ⟨steps + 1, call'', (one steps).symm ▸ known'', ?_⟩
      unfold EndsAt at ends ⊢
      rwa [now, settings] at ends
    | proceeds isTurn now' open'' sets proceeds =>
      refine ⟨1, call', (one 0).symm ▸ known', ?_⟩
      rcases (proceeds.ends off).2 with ⟨results, stage⟩ | stage
      · exact Or.inl ⟨results, now ▸ stage⟩
      · have broken := (crews'.mustered.crewed c call' known').broken stage
        exact Or.inr ⟨stage, settings ▸ broken.2⟩

theorem over_eventually (crews : CrewsAgree r) (known : r.rankings[c]? = some call)
    (off : call.cancelled = true) :
    ∃ steps call' time, (r.after (alone steps r)).rankings[c]? = some call' ∧
      EndsAt r call' time := by
  obtain ⟨steps, quiet⟩ := quiet_eventually r crews.boarded
  obtain ⟨call', known', off', -⟩ := cancelled_after crews known off (alone steps r)
  have crewed := (crews.after (alone steps r)).mustered.crewed c call' known'
  have queued (waits : call'.isWaiting = true) : False := by
    have queued := crewed.calledOff waits off'
    rw [quiet.1] at queued
    cases queued
  cases stage : call'.stage with
  | expected =>
    have called := (crewed.expected stage).2.2
    rw [Agenda.summons, quiet.1, quiet.2] at called
    cases called
  | dispatching misses => exact (queued (by simp [RankingCall.isWaiting, stage])).elim
  | joining => exact (queued (by simp [RankingCall.isWaiting, stage])).elim
  | returned results time => exact ⟨steps, call', time, known', Or.inl ⟨results, stage⟩⟩
  | broken =>
    have broken := crewed.broken stage
    rw [settings_after] at broken
    exact ⟨steps, call', 0, known', Or.inr ⟨stage, broken.2⟩⟩

end CalledOff

section Begun

variable {r start before : Ranker σ} {agenda : Agenda Task} {c : Nat} {call call' mid : RankingCall}
  {misses : List String} {acts early late : List (Act σ)}

theorem served_of_now (now : agenda.now = r.agenda.now) : { r with agenda }.served = r.served := by
  funext ip
  simp only [served, wall, now]

theorem sets_cases (now : agenda.now = r.agenda.now)
    (sets : Sets { r with agenda } call before mid misses) :
    (call.stage = .expected ∧ mid.hits = hitsOf r call.candidates ∧
        misses = missesOf r call.candidates) ∨
      (call.toDispatch? = some misses ∧ mid.hits = call.hits) := by
  cases sets with
  | looksUp stage =>
    refine Or.inl ⟨stage, ?_, ?_⟩
    · exact congrArg (fun served => (chosen r.settings call.candidates).filterMap served) (served_of_now now)
    · exact congrArg (fun served => (chosen r.settings call.candidates).filter fun ip => (served ip).isNone)
        (served_of_now now)
  | goesOn stage => exact Or.inr ⟨by rw [RankingCall.toDispatch?, stage], rfl⟩
  | waits stage => exact Or.inr ⟨by rw [RankingCall.toDispatch?, stage], rfl⟩

theorem Proceeds.toDispatch {r r' : Ranker σ} {jobs : Nat}
    (proceeds : Proceeds r c call mid misses r' call' jobs) {left : List String}
    (dispatches : call'.toDispatch? = some left) : misses.drop jobs = left := by
  have stage := proceeds.stage
  unfold RankingCall.toDispatch? at dispatches
  cases shape : call'.stage with
  | dispatching misses' =>
    rw [shape] at stage dispatches
    exact stage.2.symm.trans (Option.some.inj dispatches)
  | joining =>
    rw [shape] at stage dispatches
    exact stage.2.trans (Option.some.inj dispatches)
  | _ => simp [shape] at dispatches

/-- With a turn of its own a ranking that is not over goes from one state to the next. -/
structure OwnTurn (r : Ranker σ) (agenda : Agenda Task) (c : Nat) (call mid : RankingCall)
    (misses : List String) (jobs : Nat) (call' : RankingCall) : Prop where
  popped : r.agenda.pop? = some (.ranking c, agenda)
  known : r.rankings[c]? = some call
  pending : call.isOver = false
  turn : RankingTurn { r with agenda } c call (r.perform .turn)
  known' : (r.perform .turn).rankings[c]? = some call'
  sets : ∃ before, Sets { r with agenda } call before mid misses
  proceeds : Proceeds { r with agenda } c call mid misses (r.perform .turn) call' jobs

theorem ownTurn_of_turn (popped : r.agenda.pop? = some (.ranking c, agenda))
    (known : r.rankings[c]? = some call) (pending : call.isOver = false)
    (turn : RankingTurn { r with agenda } c call (r.perform .turn))
    (known' : (r.perform .turn).rankings[c]? = some call') :
    ∃ mid misses jobs, OwnTurn r agenda c call mid misses jobs call' := by
  obtain ⟨before, mid, misses, jobs, sets, proceeds⟩ :=
    proceeds_of_turn (r := { r with agenda }) known pending turn known'
  exact ⟨mid, misses, jobs, popped, known, pending, turn, known', ⟨before, sets⟩, proceeds⟩

theorem OwnTurn.now {jobs : Nat} (own : OwnTurn r agenda c call mid misses jobs call') :
    agenda.now = r.agenda.now :=
  (Agenda.pop?_eq_some own.popped).2.2

theorem OwnTurn.cases {jobs : Nat} (own : OwnTurn r agenda c call mid misses jobs call') :
    (call.stage = .expected ∧ mid.hits = hitsOf r call.candidates ∧
        misses = missesOf r call.candidates) ∨
      (call.toDispatch? = some misses ∧ mid.hits = call.hits) := by
  obtain ⟨before, sets⟩ := own.sets
  exact sets_cases own.now sets

/-- With its turn a ranking returns its hits and what its jobs have come to, in the order of the scores
of that moment. -/
structure ReturnsFound (r : Ranker σ) (c : Nat) (hits results : List Measurement) (time : Nat) :
    Prop where
  pending : ∃ call, r.rankings[c]? = some call ∧ call.isOver = false
  returned : ∃ call, (r.perform .turn).rankings[c]? = some call ∧ call.stage = .returned results time
  now : time = r.agenda.now
  found : results.Perm (hits ++ found c (r.perform .turn).jobs)
  ordered : results.Pairwise (Ranking.Ordered (r.perform .turn).history (r.perform .turn).wall)

/-- A ranking has begun: with some turn it looked its candidates up. Its hits are those of that look,
its jobs are for the first of the misses, and the others are still to be dispatched or never will be. -/
structure Begun (start : Ranker σ) (early late : List (Act σ)) (c : Nat) (call : RankingCall) :
    Prop where
  expected : ∃ old, (start.after early).rankings[c]? = some old ∧ old.stage = .expected
  hits : call.hits = hitsOf (start.after early) call.candidates
  posts : ∃ left, roster c (start.after (early ++ .turn :: late)).jobs ++ left =
      missesOf (start.after early) call.candidates ∧
    ∀ misses, call.toDispatch? = some misses → left = misses
  returned : ∀ results time, call.stage = .returned results time →
    ∃ front back, Act.turn :: late = front ++ .turn :: back ∧
      ReturnsFound (start.after (early ++ front)) c call.hits results time

theorem after_late (start : Ranker σ) (early late : List (Act σ)) (act : Act σ) :
    start.after (early ++ .turn :: (late ++ [act])) =
      (start.after (early ++ .turn :: late)).perform act := by
  rw [← List.cons_append, ← List.append_assoc, after_append]
  rfl

theorem OwnTurn.returnsFound {jobs : Nat} {results : List Measurement} {time : Nat}
    (own : OwnTurn r agenda c call mid misses jobs call') (crews : CrewsAgree r)
    (stage : call'.stage = .returned results time) : ReturnsFound r c call'.hits results time := by
  have crews' := crews.perform .turn
  have next := own.proceeds.stage
  rw [stage] at next
  obtain ⟨-, time', ranked⟩ := next
  have collected := (crews'.mustered.crewed c call' own.known').fresh
  rw [own.proceeds.fresh] at collected
  refine ⟨⟨call, own.known, own.pending⟩, ⟨call', own.known', stage⟩, ?_, ?_, ?_⟩
  · exact time'.trans (now_of_turn (turn_perform r))
  · rw [ranked, own.proceeds.hits]
    exact (Ranking.rank_perm _ _ _).trans (collected.append_left mid.hits)
  · rw [ranked]
    exact Ranking.rank_ordered _ _ _

theorem Begun.beside {act : Act σ} (begun : Begun start early late c call)
    (beside : Beside (start.after (early ++ .turn :: late))
      ((start.after (early ++ .turn :: late)).perform act) c call call') :
    Begun start early (late ++ [act]) c call' where
  expected := begun.expected
  hits := by rw [beside.hits, beside.candidates, begun.hits]
  posts := by
    obtain ⟨left, parts, rest⟩ := begun.posts
    refine ⟨left, ?_, fun misses dispatches => rest misses ?_⟩
    · rw [after_late, beside.posts, beside.candidates]
      exact parts
    · rw [RankingCall.toDispatch?, ← beside.stage]
      exact dispatches
  returned := by
    intro results time stage
    obtain ⟨front, back, moment, returns⟩ := begun.returned results time (beside.stage ▸ stage)
    refine ⟨front, back ++ [act], ?_, beside.hits ▸ returns⟩
    rw [← List.cons_append, moment, List.append_assoc, List.cons_append]

theorem Begun.goesOn {jobs : Nat} (begun : Begun start early late c call)
    (crews : CrewsAgree (start.after (early ++ .turn :: late)))
    (own : OwnTurn (start.after (early ++ .turn :: late)) agenda c call mid misses jobs call')
    (dispatches : call.toDispatch? = some misses) (hits : mid.hits = call.hits) :
    Begun start early (late ++ [.turn]) c call' where
  expected := begun.expected
  hits := by rw [own.proceeds.hits, hits, own.proceeds.candidates, begun.hits]
  posts := by
    obtain ⟨left, parts, rest⟩ := begun.posts
    have left' : left = misses := rest misses dispatches
    refine ⟨misses.drop jobs, ?_, fun _ => own.proceeds.toDispatch⟩
    rw [after_late, own.proceeds.posts, List.append_assoc, List.take_append_drop,
      own.proceeds.candidates, ← left']
    exact parts
  returned := by
    intro results time stage
    exact ⟨.turn :: late, [], rfl, own.returnsFound crews stage⟩

theorem begun_of_looksUp {jobs : Nat} (crews : CrewsAgree (start.after acts))
    (own : OwnTurn (start.after acts) agenda c call mid misses jobs call')
    (stage : call.stage = .expected) (hits : mid.hits = hitsOf (start.after acts) call.candidates)
    (missing : misses = missesOf (start.after acts) call.candidates) : Begun start acts [] c call' where
  expected := ⟨call, own.known, stage⟩
  hits := by rw [own.proceeds.hits, hits, own.proceeds.candidates]
  posts := by
    have nobody : roster c (start.after acts).jobs = [] :=
      ((crews.mustered.crewed c call own.known).expected stage).1
    refine ⟨misses.drop jobs, ?_, fun _ => own.proceeds.toDispatch⟩
    rw [after_concat, own.proceeds.posts, nobody, List.nil_append, List.take_append_drop, missing,
      own.proceeds.candidates]
  returned := by
    intro results time shape
    refine ⟨[], [], rfl, ?_⟩
    rw [List.append_nil]
    exact own.returnsFound crews shape

/-- After any course a ranking is still to begin, or has come to hold with its first turn what neither
the acts of others nor its own later turns take from it. -/
theorem since_begun {motive : List (Act σ) → List (Act σ) → RankingCall → Prop}
    (crews : CrewsAgree start) (nobody : start.rankings = [])
    (beside : ∀ {early late act call call'}, motive early late call →
      Beside (start.after (early ++ .turn :: late))
        ((start.after (early ++ .turn :: late)).perform act) c call call' →
      motive early (late ++ [act]) call')
    (looksUp : ∀ {acts agenda call mid misses jobs call'},
      OwnTurn (start.after acts) agenda c call mid misses jobs call' → call.stage = .expected →
      mid.hits = hitsOf (start.after acts) call.candidates →
      misses = missesOf (start.after acts) call.candidates → motive acts [] call')
    (goesOn : ∀ {early late agenda call mid misses jobs call'}, motive early late call →
      OwnTurn (start.after (early ++ .turn :: late)) agenda c call mid misses jobs call' →
      call.toDispatch? = some misses → mid.hits = call.hits → motive early (late ++ [.turn]) call')
    (known : (start.after acts).rankings[c]? = some call) :
    call.stage = .expected ∨ ∃ early late, acts = early ++ .turn :: late ∧ motive early late call := by
  -- from the back, as the turn with which the ranking began stays where it is
  induction acts using List.reverseRecOn generalizing call with
  | nil =>
    have nothing : start.rankings[c]? = some call := known
    rw [nobody] at nothing
    cases nothing
  | append_singleton acts act ih =>
    rw [after_concat] at known
    cases passage_perform (crews.after acts).boarded act known with
    | @beside old before apart =>
      rcases ih before with stage | ⟨early, late, rfl, held⟩
      · exact Or.inl (apart.stage.trans stage)
      · exact Or.inr ⟨early, late ++ [act], by simp, beside held apart⟩
    | enters new shape jobs called => exact Or.inl (shape ▸ rfl)
    | @turns agenda old isTurn popped before open' turn =>
      subst isTurn
      obtain ⟨mid, misses, jobs, own⟩ := ownTurn_of_turn popped before open' turn known
      rcases own.cases with ⟨stage, hits, missing⟩ | ⟨dispatches, hits⟩
      · exact Or.inr ⟨acts, [], rfl, looksUp own stage hits missing⟩
      · rcases ih before with stage | ⟨early, late, rfl, held⟩
        · simp [RankingCall.toDispatch?, stage] at dispatches
        · exact Or.inr ⟨early, late ++ [.turn], by simp, goesOn held own dispatches hits⟩

theorem begun_after (crews : CrewsAgree start) (nobody : start.rankings = [])
    (known : (start.after acts).rankings[c]? = some call) :
    call.stage = .expected ∨ ∃ early late, acts = early ++ .turn :: late ∧ Begun start early late c call :=
  since_begun crews nobody Begun.beside (begun_of_looksUp (crews.after _))
    (fun begun => begun.goesOn (crews.after _)) known

end Begun

end Ranker

end LatencyRank
