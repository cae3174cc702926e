import Mathlib
import LatencyRank.Proofs.Ranker.Dispatch

/-!
The course of a ranker: everything that can be done to it and with it, in any order. What is proved
for each act holds after any course.
-/

namespace LatencyRank

inductive Act (σ : Type) where
  | turn
  | tick
  /-- Time passes otherwise. -/
  | rest (time : Nat)
  | setClock (clock : WallClock)
  /-- The prober is given something else to remember. -/
  | behave (memory : σ)
  | request (candidates : List String) (domain : String) (start : Nat) (cancelAfter : Option Nat)
  | cancel (number : Nat)
  | record (entry : HistoryBook.Entry)
  | clearHistory
  | clearCache
  | sweep
  | stop (disk : Disk)

namespace RankingCall

def order (call : RankingCall) : List String × String := (call.candidates, call.domain)

def calledOff (call : RankingCall) : RankingCall := { call with cancelled := true }

/-- The candidates that may still become jobs. -/
def undispatched (call : RankingCall) : Nat :=
  match call.stage with
  | .expected => call.candidates.length
  | .dispatching misses => misses.length
  | .joining | .returned .. | .broken => 0

end RankingCall

namespace Ranker

variable {σ : Type}

section Acts

def perform (r : Ranker σ) : Act σ → Ranker σ
  | .turn => r.step?.getD r
  | .tick => r.tick?.getD r
  | .rest time => { r with agenda := { r.agenda with now := max r.agenda.now time } }
  | .setClock clock => { r with clock }
  | .behave memory => { r with memory }
  | .request candidates domain start cancelAfter => r.request candidates domain start cancelAfter
  | .cancel number => r.cancel number
  | .record entry => { r with history := r.history.note entry }
  | .clearHistory => { r with history := r.history.clear }
  | .clearCache => { r with cache := r.cache.clear }
  | .sweep => r.sweep
  | .stop disk => (r.stop disk).1

def after (r : Ranker σ) (acts : List (Act σ)) : Ranker σ := acts.foldl perform r

theorem after_append (r : Ranker σ) (front back : List (Act σ)) :
    r.after (front ++ back) = (r.after front).after back := List.foldl_append ..

theorem after_concat (r : Ranker σ) (acts : List (Act σ)) (act : Act σ) :
    r.after (acts ++ [act]) = (r.after acts).perform act :=
  after_append r acts [act]

theorem after_induction {motive : Ranker σ → Prop}
    (keeps : ∀ r act, motive r → motive (r.perform act)) {r : Ranker σ} (holds : motive r)
    (acts : List (Act σ)) : motive (r.after acts) := by
  unfold after
  induction acts generalizing r with
  | nil => exact holds
  | cons act rest ih => exact ih (keeps r act holds)

def requested (acts : List (Act σ)) : List (List String × String) :=
  acts.filterMap fun
    | .request candidates domain _ _ => some (candidates, domain)
    | _ => none

theorem requested_append (front back : List (Act σ)) :
    requested (front ++ back) = requested front ++ requested back :=
  List.filterMap_append

theorem requested_cons (act : Act σ) (rest : List (Act σ)) :
    requested (act :: rest) = requested [act] ++ requested rest :=
  requested_append [act] rest

end Acts

section Outcomes

variable {r r' : Ranker σ} {c : Nat} {call call' : RankingCall} {misses : List String}

theorem stale_add_missing_le (r : Ranker σ) (ips : List String) :
    (ips.filter r.servesStale).length + (ips.filter fun ip => (r.served ip).isNone).length ≤
      ips.length := by
  induction ips with
  | nil => exact Nat.le_refl _
  | cons ip rest ih =>
      have apart : r.servesStale ip = true → (r.served ip).isNone = false := by
        intro stale
        cases answer : r.served ip <;> simp [servesStale, answer] at stale ⊢
      rw [List.filter_cons, List.filter_cons, List.length_cons]
      by_cases stale : r.servesStale ip = true
      · rw [if_pos stale, if_neg (by simp [apart stale]), List.length_cons]
        omega
      · rw [if_neg stale]
        split
        · rw [List.length_cons]
          omega
        · omega

theorem chosen_length_le (s : Settings) (candidates : List String) :
    (chosen s candidates).length ≤ candidates.length := by
  unfold chosen
  split
  · exact Nat.le_refl _
  · exact List.length_take_le' _ _

/-- Looking candidates up is starting refreshes, for candidates that are not missing. -/
theorem enlists_of_sets (sets : Sets r call r' call' misses) :
    ∃ recruits, Enlists r recruits r' ∧ recruits.length + misses.length ≤ call.undispatched ∧
      ∀ job ∈ recruits, job.owner = .refresh ∧ job.domain = call.domain := by
  cases sets with
  | looksUp stage =>
      obtain ⟨recruits, enlists, few, refreshes⟩ := enlists_refreshAll call.domain
        ((chosen r.settings call.candidates).filter r.servesStale) r
      have parts := stale_add_missing_le r (chosen r.settings call.candidates)
      have limit := chosen_length_le r.settings call.candidates
      refine ⟨recruits, enlists, ?_, refreshes⟩
      simp only [RankingCall.undispatched, stage]
      omega
  | goesOn stage =>
      refine ⟨[], .nil r, ?_, fun _ member => absurd member List.not_mem_nil⟩
      simp [RankingCall.undispatched, stage]
  | waits stage =>
      refine ⟨[], .nil r, ?_, fun _ member => absurd member List.not_mem_nil⟩
      simp [RankingCall.undispatched, stage]

theorem rankings_of_sets (sets : Sets r call r' call' misses) : r'.rankings = r.rankings := by
  obtain ⟨recruits, enlists, -⟩ := enlists_of_sets sets
  exact enlists.rankings

theorem settings_of_sets (sets : Sets r call r' call' misses) : r'.settings = r.settings := by
  obtain ⟨recruits, enlists, -⟩ := enlists_of_sets sets
  exact enlists.settings

theorem ranking_of_set {call'' : RankingCall} (known : r.rankings[c]? = some call)
    (rankings : r'.rankings = r.rankings)
    (known' : (r'.setRanking c call'').rankings[c]? = some call') : call' = call'' := by
  have inside := (List.getElem?_eq_some_iff.mp known).1
  simp only [setRanking, rankings, List.getElem?_set_self inside, Option.some.injEq] at known'
  exact known'.symm

theorem sets_candidates (sets : Sets r call r' call' misses) :
    call'.candidates = call.candidates := by
  cases sets <;> rfl

theorem same_of_over (over' : call.isOver = true) (turn : RankingTurn r c call r') : r' = r := by
  have open' {before : Ranker σ} {call' : RankingCall} {misses : List String}
      (sets : Sets r call before call' misses) : call.isOver = false := by
    cases sets with
    | looksUp stage => simp [RankingCall.isOver, stage]
    | goesOn stage => simp [RankingCall.isOver, stage]
    | waits stage => simp [RankingCall.isOver, stage]
  cases turn with
  | idle _ => rfl
  | breaks sets _ _ => simp [open' sets] at over'
  | pauses sets _ _ => simp [open' sets] at over'
  | joins sets _ _ _ => simp [open' sets] at over'
  | returns sets _ => simp [open' sets] at over'

/-- A ranking's turn changes nothing but the ranking and what comes with new jobs. -/
structure Recruits (r : Ranker σ) (c : Nat) (call : RankingCall) (recruits : List Job)
    (r'' : Ranker σ) (call'' : RankingCall) : Prop where
  enlists : Enlists r recruits r''
  owners : ∀ job ∈ recruits, job.domain = call.domain ∧ (job.owner = .refresh ∨ job.owner = .ranking c)
  candidates : call''.candidates = call.candidates
  domain : call''.domain = call.domain

theorem Recruits.foreign {recruits : List Job} {r'' : Ranker σ} {call'' : RankingCall} {m : Nat}
    (enlisted : Recruits r c call recruits r'' call'') (different : c ≠ m) :
    ∀ job ∈ recruits, job.owner ≠ .ranking m := by
  intro job member own
  rcases (enlisted.owners job member).2 with refreshes | mine
  · cases own.symm.trans refreshes
  · exact different (Owner.ranking.inj (mine.symm.trans own))

theorem recruits_of_sets (sets : Sets r call r' call' misses) (ips : List String) (jobs : Nat)
    (stage : RankingStage) :
    ∃ recruits, Recruits r c call recruits (spawnAll call.domain (.ranking c) ips r')
      (starting call' jobs stage) := by
  obtain ⟨refreshes, enlists, -, owners⟩ := enlists_of_sets sets
  refine ⟨_, enlists.append (enlists_spawnAll call.domain (.ranking c) ips r'), ?_,
    (sets_candidates sets :), (sets_domain sets :)⟩
  intro job member
  rcases List.mem_append.mp member with refreshing | new
  · exact ⟨(owners job refreshing).2, Or.inl (owners job refreshing).1⟩
  · obtain ⟨ip, -, rfl⟩ := List.mem_map.mp new
    exact ⟨rfl, Or.inr rfl⟩

theorem recruits_of_turn (turn : RankingTurn r c call r') :
    r' = r ∨ ∃ recruits r'' call'' news, Recruits r c call recruits r'' call'' ∧
      r' = { r''.setRanking c call'' with journal := news ++ r''.journal } ∧
      ∀ event ∈ news, ∃ time, event = .returned c time := by
  have silent : ∀ event ∈ ([] : List RankerEvent), ∃ time, event = .returned c time :=
    fun _ member => absurd member List.not_mem_nil
  cases turn with
  | @breaks _ call' _ sets stage many =>
      obtain ⟨recruits, enlists, -, owners⟩ := enlists_of_sets sets
      refine Or.inr ⟨recruits, _, { call' with stage := .broken }, [],
        ⟨enlists, ?_, (sets_candidates sets :), (sets_domain sets :)⟩, rfl, silent⟩
      exact fun job member => ⟨(owners job member).2, Or.inl (owners job member).1⟩
  | pauses sets going few =>
      obtain ⟨recruits, enlisted⟩ := recruits_of_sets (c := c) sets _ _ _
      exact Or.inr ⟨recruits, _, _, [], enlisted, rfl, silent⟩
  | joins sets going enough busy =>
      obtain ⟨recruits, enlisted⟩ := recruits_of_sets (c := c) sets _ _ _
      exact Or.inr ⟨recruits, _, _, [], enlisted, rfl, silent⟩
  | @returns before call' _ sets over' =>
      obtain ⟨recruits, enlists, -, owners⟩ := enlists_of_sets sets
      let results := Ranking.rank (call'.hits ++ call'.fresh) before.history before.wall
      refine Or.inr ⟨recruits, _, { call' with stage := .returned results before.agenda.now },
        [.returned c before.agenda.now],
        ⟨enlists, ?_, (sets_candidates sets :), (sets_domain sets :)⟩, rfl, ?_⟩
      · exact fun job member => ⟨(owners job member).2, Or.inl (owners job member).1⟩
      · exact fun event member => ⟨_, List.mem_singleton.mp member⟩
  | idle over' => exact Or.inl rfl

def heedingCancel (call : RankingCall) (c : Nat) : List Task :=
  if call.isWaiting ∧ !call.cancelled then [.ranking c] else []

def afterCancel (r : Ranker σ) (c : Nat) (call : RankingCall) : Ranker σ :=
  { r with
    rankings := r.rankings.modify c RankingCall.calledOff
    agenda := r.agenda.wakeAll (heedingCancel call c) }

theorem cancel_eq (known : r.rankings[c]? = some call) : r.cancel c = r.afterCancel c call := by
  unfold cancel afterCancel heedingCancel
  rw [known, modify_of_getElem? known]
  by_cases waits : call.isWaiting ∧ !call.cancelled
  · simp only [waits]
    rfl
  · simp only [waits]
    rfl

theorem perform_of_pop {task : Task} {agenda : Agenda Task}
    (popped : r.agenda.pop? = some (task, agenda)) : r.perform .turn = { r with agenda }.handle task := by
  rw [perform, step?, popped]
  rfl

/-- All outcomes of a turn. -/
inductive Turn (r : Ranker σ) : Ranker σ → Prop
  | rests (empty : r.agenda.ready = []) : Turn r r
  | ofJob {n : Nat} {agenda : Agenda Task} {job : Job} {r' : Ranker σ}
      (popped : r.agenda.pop? = some (.job n, agenda)) (known : r.jobs[n]? = some job)
      (turn : JobTurn { r with agenda } n job r') : Turn r r'
  | ofRanking {c : Nat} {agenda : Agenda Task} {call : RankingCall} {r' : Ranker σ}
      (popped : r.agenda.pop? = some (.ranking c, agenda)) (known : r.rankings[c]? = some call)
      (turn : RankingTurn { r with agenda } c call r') : Turn r r'
  | ofCancel {c : Nat} {agenda : Agenda Task} {call : RankingCall}
      (popped : r.agenda.pop? = some (.cancel c, agenda)) (known : r.rankings[c]? = some call) :
      Turn r (afterCancel { r with agenda } c call)
  /-- There is no such job, or no such ranking. -/
  | lapses {task : Task} {agenda : Agenda Task} (popped : r.agenda.pop? = some (task, agenda))
      (noJob : ∀ n, task = .job n → r.jobs[n]? = none)
      (noRanking : ∀ c, task = .ranking c → r.rankings[c]? = none) : Turn r { r with agenda }

theorem turn_perform (r : Ranker σ) : Turn r (r.perform .turn) := by
  cases popped : r.agenda.pop? with
  | none =>
      rw [perform, step?, popped]
      exact .rests (Agenda.pop?_eq_none.mp popped)
  | some next =>
      obtain ⟨task, agenda⟩ := next
      rw [perform_of_pop popped]
      cases task with
      | job n =>
          cases known : r.jobs[n]? with
          | none =>
              have same : resumeJob { r with agenda } n = { r with agenda } := by
                simp only [resumeJob, known]
              rw [handle, same]
              exact .lapses popped (fun m eq => by cases eq; exact known) (fun m eq => by cases eq)
          | some job => exact .ofJob popped known (resumeJob_turn (r := { r with agenda }) known)
      | ranking c =>
          cases known : r.rankings[c]? with
          | none =>
              have same : resumeRanking { r with agenda } c = { r with agenda } := by
                simp only [resumeRanking, known]
              rw [handle, same]
              exact .lapses popped (fun m eq => by cases eq) (fun m eq => by cases eq; exact known)
          | some call =>
              exact .ofRanking popped known (resumeRanking_turn (r := { r with agenda }) known)
      | cancel c =>
          cases known : r.rankings[c]? with
          | none =>
              have same : cancel { r with agenda } c = { r with agenda } := by
                simp only [cancel, known]
              rw [handle, same]
              exact .lapses popped (fun m eq => by cases eq) (fun m eq => by cases eq)
          | some call =>
              rw [handle, cancel_eq (r := { r with agenda }) known]
              exact .ofCancel popped known

theorem cancel_of_none (none' : r.rankings[c]? = none) : r.cancel c = r := by
  unfold cancel
  rw [none']

/-- A requested ranking as it stands before its start. -/
def requestedCall (s : Settings) (candidates : List String) (domain : String)
    (cancelAfter : Option Nat) : RankingCall :=
  { candidates, domain, cancelled := cancelAfter = some 0, permits := max s.concurrency 1 }

theorem ranking_of_request {candidates : List String} {domain : String} {start : Nat}
    {cancelAfter : Option Nat} {c : Nat}
    (known : (r.request candidates domain start cancelAfter).rankings[c]? = some call) :
    r.rankings[c]? = some call ∨
      (c = r.rankings.length ∧ call = requestedCall r.settings candidates domain cancelAfter) := by
  have known' : (r.rankings ++ [requestedCall r.settings candidates domain cancelAfter])[c]? =
      some call := known
  rw [List.getElem?_append] at known'
  split at known'
  · exact Or.inl known'
  · rename_i new
    right
    have inside := (List.getElem?_eq_some_iff.mp known').1
    rw [List.length_singleton] at inside
    have zero : c - r.rankings.length = 0 := Nat.lt_one_iff.mp inside
    rw [zero, List.getElem?_cons_zero] at known'
    exact ⟨by omega, (Option.some.inj known').symm⟩

theorem agenda_request (r : Ranker σ) (candidates : List String) (domain : String) (start : Nat)
    (cancelAfter : Option Nat) :
    let begun := r.agenda.wakeAfter start (.ranking r.rankings.length)
    (r.request candidates domain start cancelAfter).agenda = begun ∨
      ∃ delay, (r.request candidates domain start cancelAfter).agenda =
        begun.wakeAfter delay (.cancel r.rankings.length) := by
  unfold request
  dsimp only
  split
  · exact Or.inl rfl
  · exact Or.inl rfl
  · exact Or.inr ⟨_, rfl⟩

theorem kept_by_request {motive : Agenda Task → Prop} (r : Ranker σ) (candidates : List String)
    (domain : String) (start : Nat) (cancelAfter : Option Nat)
    (begun : motive (r.agenda.wakeAfter start (.ranking r.rankings.length)))
    (later : ∀ a delay, motive a → motive (a.wakeAfter delay (.cancel r.rankings.length))) :
    motive (r.request candidates domain start cancelAfter).agenda := by
  rcases agenda_request r candidates domain start cancelAfter with once | ⟨delay, twice⟩
  · exact once ▸ begun
  · exact twice ▸ later _ delay begun

/-- All outcomes of an act that is no turn. -/
inductive Aside (r : Ranker σ) : Ranker σ → Prop
  | plain (clock : WallClock) (memory : σ) (history : HistoryBook) (cache : ShardedCache)
      (sweeping stopped : Bool) : Aside r { r with clock, memory, history, cache, sweeping, stopped }
  | ticks {later : Agenda Task} (ticked : r.agenda.tick? = some later) :
      Aside r { r with agenda := later }
  | rests (time : Nat) : Aside r { r with agenda := { r.agenda with now := max r.agenda.now time } }
  | asks (candidates : List String) (domain : String) (start : Nat) (cancelAfter : Option Nat) :
      Aside r (r.request candidates domain start cancelAfter)
  | cancels {c : Nat} {call : RankingCall} (known : r.rankings[c]? = some call) :
      Aside r (r.afterCancel c call)

theorem Aside.unchanged (r : Ranker σ) : Aside r r :=
  .plain r.clock r.memory r.history r.cache r.sweeping r.stopped

theorem outcome_perform (r : Ranker σ) (act : Act σ) :
    (act = .turn ∧ Turn r (r.perform act)) ∨ Aside r (r.perform act) := by
  cases act with
  | turn => exact Or.inl ⟨rfl, turn_perform r⟩
  | tick =>
      simp only [perform, tick?]
      cases ticked : r.agenda.tick? with
      | none => exact Or.inr (.unchanged r)
      | some later => exact Or.inr (.ticks ticked)
  | rest time => exact Or.inr (.rests time)
  | setClock clock => exact Or.inr (.plain clock ..)
  | behave memory => exact Or.inr (.plain _ memory ..)
  | request candidates domain start cancelAfter => exact Or.inr (.asks ..)
  | cancel c =>
      cases known : r.rankings[c]? with
      | none =>
          rw [perform, cancel_of_none known]
          exact Or.inr (.unchanged r)
      | some call =>
          rw [perform, cancel_eq known]
          exact Or.inr (.cancels known)
  | record entry => exact Or.inr (.plain _ _ (r.history.note entry) ..)
  | clearHistory => exact Or.inr (.plain _ _ r.history.clear ..)
  | clearCache => exact Or.inr (.plain _ _ _ r.cache.clear ..)
  | sweep =>
      simp only [perform, Ranker.sweep]
      split
      · exact Or.inr (.plain _ _ _ (r.cache.cleanup r.wall).1 ..)
      · exact Or.inr (.unchanged r)
  | stop disk =>
      simp only [perform, Ranker.stop]
      split
      · exact Or.inr (.unchanged r)
      · exact Or.inr (.plain _ _ _ _ false true)

end Outcomes

section Frame

variable {r r' : Ranker σ}

theorem fixed_of_jobTurn {n : Nat} {job : Job} (turn : JobTurn r n job r') :
    r'.settings = r.settings ∧ r'.prober = r.prober := by
  cases turn with
  | ends stage =>
      rw [finish_eq]
      exact ⟨rfl, rfl⟩
  | _ => exact ⟨rfl, rfl⟩

theorem fixed_of_rankingTurn {c : Nat} {call : RankingCall} (turn : RankingTurn r c call r') :
    r'.settings = r.settings ∧ r'.prober = r.prober := by
  rcases recruits_of_turn turn with rfl | ⟨recruits, r'', call'', news, enlisted, rfl, -⟩
  · exact ⟨rfl, rfl⟩
  · rw [enlisted.enlists.same]
    exact ⟨rfl, rfl⟩

theorem fixed_of_turn (turn : Turn r r') : r'.settings = r.settings ∧ r'.prober = r.prober := by
  cases turn with
  | rests empty => exact ⟨rfl, rfl⟩
  | ofJob popped known turn => exact (fixed_of_jobTurn turn :)
  | ofRanking popped known turn => exact (fixed_of_rankingTurn turn :)
  | ofCancel popped known => exact ⟨rfl, rfl⟩
  | lapses popped noJob noRanking => exact ⟨rfl, rfl⟩

theorem fixed_perform (r : Ranker σ) (act : Act σ) :
    (r.perform act).settings = r.settings ∧ (r.perform act).prober = r.prober := by
  rcases outcome_perform r act with ⟨-, turn⟩ | aside
  · exact fixed_of_turn turn
  · generalize r.perform act = r' at aside
    cases aside <;> exact ⟨rfl, rfl⟩

theorem settings_after (r : Ranker σ) (acts : List (Act σ)) : (r.after acts).settings = r.settings :=
  after_induction (motive := fun r' => r'.settings = r.settings)
    (fun r' act same => (fixed_perform r' act).1.trans same) rfl acts

theorem prober_after (r : Ranker σ) (acts : List (Act σ)) : (r.after acts).prober = r.prober :=
  after_induction (motive := fun r' => r'.prober = r.prober)
    (fun r' act same => (fixed_perform r' act).2.trans same) rfl acts

end Frame

section Requests

variable {r r' : Ranker σ}

theorem orders_rankingsAfter (rankings : List RankingCall) (outcome : Measurement) (owner : Owner) :
    (rankingsAfter rankings outcome owner).map RankingCall.order = rankings.map RankingCall.order := by
  cases owner with
  | refresh => rfl
  | ranking c => exact map_modify_of_same (delivered outcome) (fun _ => rfl) rankings c

theorem orders_of_turn (turn : Turn r r') :
    r'.rankings.map RankingCall.order = r.rankings.map RankingCall.order := by
  cases turn with
  | rests empty => rfl
  | ofJob popped known turn =>
      cases turn with
      | concludes begins news memory attempts reported took all => exact orders_rankingsAfter _ _ _
      | givesUp begins news memory attempts reported failed => exact orders_rankingsAfter _ _ _
      | ends stage =>
          rw [finish_eq]
          exact orders_rankingsAfter _ _ _
      | _ => rfl
  | @ofRanking c _ call _ popped known turn =>
      rcases recruits_of_turn turn with rfl | ⟨recruits, r'', call'', news, enlisted, rfl, -⟩
      · rfl
      · have calls : r''.rankings = r.rankings := enlisted.enlists.rankings
        simp only [setRanking, calls]
        apply List.ext_getElem?
        intro m
        rw [List.getElem?_map, List.getElem?_map, List.getElem?_set]
        by_cases here : c = m
        · subst here
          rw [if_pos rfl, if_pos (List.getElem?_eq_some_iff.mp known).1, known]
          simp only [Option.map_some, RankingCall.order, enlisted.candidates, enlisted.domain]
        · simp [here]
  | ofCancel popped known => exact map_modify_of_same RankingCall.calledOff (fun _ => rfl) _ _
  | lapses popped noJob noRanking => rfl

theorem orders_perform (r : Ranker σ) (act : Act σ) :
    (r.perform act).rankings.map RankingCall.order =
      r.rankings.map RankingCall.order ++ requested [act] := by
  cases act with
  | turn => exact (orders_of_turn (turn_perform r)).trans (List.append_nil _).symm
  | request candidates domain start cancelAfter => exact List.map_append
  | tick =>
      simp only [perform, tick?]
      cases r.agenda.tick? <;> exact (List.append_nil _).symm
  | cancel c =>
      cases known : r.rankings[c]? with
      | none =>
          rw [perform, cancel_of_none known]
          exact (List.append_nil _).symm
      | some call =>
          rw [perform, cancel_eq known]
          exact (map_modify_of_same RankingCall.calledOff (fun _ => rfl) _ _).trans (List.append_nil _).symm
  | sweep =>
      simp only [perform, Ranker.sweep]
      split <;> exact (List.append_nil _).symm
  | stop disk =>
      simp only [perform, Ranker.stop]
      split <;> exact (List.append_nil _).symm
  | _ => exact (List.append_nil _).symm

theorem length_rankings_perform (r : Ranker σ) (act : Act σ) :
    (r.perform act).rankings.length = r.rankings.length + (requested [act]).length := by
  have lengths := congrArg List.length (orders_perform r act)
  rwa [List.length_append, List.length_map, List.length_map] at lengths

theorem orders_after (r : Ranker σ) (acts : List (Act σ)) :
    (r.after acts).rankings.map RankingCall.order =
      r.rankings.map RankingCall.order ++ requested acts := by
  induction acts generalizing r with
  | nil => exact (List.append_nil _).symm
  | cons act rest ih =>
      rw [after, List.foldl_cons, ← after, ih, orders_perform, requested_cons act rest,
        List.append_assoc]

end Requests

section Jobs

variable {r r' : Ranker σ} {n : Nat} {job : Job} {β : Type} {view : Job → β}

theorem map_of_jobTurn (still : ∀ stage job, view (Job.atStage stage job) = view job)
    (turn : JobTurn r n job r') : r'.jobs.map view = r.jobs.map view := by
  have staged (stage : JobStage) (jobs : List Job) :
      (jobs.modify n (.atStage stage)).map view = jobs.map view :=
    map_modify_of_same (Job.atStage stage) (still stage) jobs n
  have told (m : Measurement) (waiting : List Nat) :
      (toldAll m waiting r.jobs).map view = r.jobs.map view :=
    map_modifyAll_of_same (Job.atStage (.told m)) (still (.told m)) waiting r.jobs
  cases turn with
  | waits stage behind => exact staged _ _
  | sleeps begins news memory sample delay attempts reported took fewer positive => exact staged _ _
  | concludes begins news memory attempts reported took all => exact (staged _ _).trans (told _ _)
  | givesUp begins news memory attempts reported failed => exact (staged _ _).trans (told _ _)
  | ends stage =>
      rw [finish_eq]
      exact staged _ _
  | idle stage => rfl

theorem map_of_turn (still : ∀ stage job, view (Job.atStage stage job) = view job) (turn : Turn r r') :
    r.jobs.map view <+: r'.jobs.map view := by
  cases turn with
  | rests empty => exact List.prefix_rfl
  | ofJob popped known turn => exact (map_of_jobTurn still turn).symm ▸ List.prefix_rfl
  | @ofRanking _ agenda _ _ popped known turn =>
      rcases recruits_of_turn turn with rfl | ⟨recruits, r'', call'', news, enlisted, rfl, -⟩
      · exact List.prefix_rfl
      · have more : r''.jobs = r.jobs ++ recruits := enlisted.enlists.jobs
        have more' : r''.jobs.map view = r.jobs.map view ++ recruits.map view := by
          rw [more, List.map_append]
        exact ⟨_, more'.symm⟩
  | ofCancel popped known => exact List.prefix_rfl
  | lapses popped noJob noRanking => exact List.prefix_rfl

theorem Aside.still (aside : Aside r r') : r'.jobs = r.jobs ∧ r'.journal = r.journal := by
  cases aside <;> exact ⟨rfl, rfl⟩

theorem job_perform (r : Ranker σ) (act : Act σ) (known : r.jobs[n]? = some job) :
    ∃ stage, (r.perform act).jobs[n]? = some (job.atStage stage) := by
  have more : r.jobs.map (Job.atStage .queued) <+: (r.perform act).jobs.map (Job.atStage .queued) := by
    rcases outcome_perform r act with ⟨-, turn⟩ | aside
    · exact map_of_turn (fun _ _ => rfl) turn
    · rw [aside.still.1]
  obtain ⟨inside, mine⟩ := List.getElem?_eq_some_iff.mp known
  have still := List.prefix_iff_getElem?.mp more n (by rwa [List.length_map])
  rw [List.getElem?_map, List.getElem_map, mine] at still
  obtain ⟨job', known', same⟩ := Option.map_eq_some_iff.mp still
  -- two jobs that look alike at one stage differ in theirs alone
  have restored : (Job.atStage .queued job').atStage job'.stage =
      (Job.atStage .queued job).atStage job'.stage := by rw [same]
  exact ⟨job'.stage, known'.trans (congrArg some restored)⟩

theorem job_of_perform {act : Act σ} {job' : Job} (known : r.jobs[n]? = some job)
    (known' : (r.perform act).jobs[n]? = some job') : ∃ stage, job' = job.atStage stage := by
  obtain ⟨stage, known''⟩ := job_perform r act known
  exact ⟨stage, Option.some.inj (known'.symm.trans known'')⟩

theorem length_jobs_perform (r : Ranker σ) (act : Act σ) :
    r.jobs.length ≤ (r.perform act).jobs.length := by
  by_contra shorter
  obtain ⟨stage, known⟩ := job_perform r act (List.getElem?_eq_getElem (Nat.lt_of_not_le shorter))
  exact absurd (List.getElem?_eq_some_iff.mp known).1 (Nat.lt_irrefl _)

theorem ip_perform (r : Ranker σ) (act : Act σ) (known : r.jobs[n]? = some job) :
    ∃ job', (r.perform act).jobs[n]? = some job' ∧ job'.ip = job.ip := by
  obtain ⟨stage, known'⟩ := job_perform r act known
  exact ⟨_, known', rfl⟩

end Jobs

end Ranker

end LatencyRank
