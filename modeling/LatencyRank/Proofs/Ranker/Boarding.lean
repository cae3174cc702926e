import Mathlib
import LatencyRank.Proofs.Ranker.Course
import LatencyRank.Proofs.Schedule.Flights

/-!
Jobs, flights and agenda in step. A job's stage says whether it makes its pair's measurement, awaits
it or has nothing to do with it, and whether it is on the agenda. Every act keeps that. Jobs are
never called off, so whoever waits has somebody under way to wait for. While a job takes its turn it
is off the agenda and about to change, so the operations are described with that job excepted.
-/

namespace LatencyRank

def JobStage.calls : JobStage → Nat
  | .queued | .attempting .. | .told _ => 1
  | .waiting | .done _ => 0

namespace Ranker

open Flights

variable {σ : Type} {f : Flights} {a b : Agenda Task} {jobs : List Job} {n : Nat} {job : Job}

section Placement

/-- A job stands with the flights and on the agenda as its stage says. -/
structure Placed (f : Flights) (a : Agenda Task) (n : Nat) (job : Job) : Prop where
  runs : f.Runs job.key n ↔ job.isAttempting = true
  awaits : f.Awaits job.key n ↔ job.stage = .waiting
  calls : a.summons.count (.job n) = job.stage.calls

theorem placed_congr {g : Flights} (placed : Placed f a n job)
    (runs : g.Runs job.key n ↔ f.Runs job.key n) (awaits : g.Awaits job.key n ↔ f.Awaits job.key n)
    (calls : b.summons.count (.job n) = a.summons.count (.job n)) : Placed g b n job where
  runs := runs.trans placed.runs
  awaits := awaits.trans placed.awaits
  calls := calls.trans placed.calls

theorem Placed.ashore (placed : Placed f a n job) (still : job.isAttempting = false)
    (notWaiting : job.stage ≠ .waiting) : ¬f.Runs job.key n ∧ ¬f.Awaits job.key n := by
  constructor
  · intro runs
    rw [placed.runs, still] at runs
    cases runs
  · intro awaits
    exact notWaiting (placed.awaits.mp awaits)

/-- Jobs, flights and agenda are in step, but for some jobs. -/
structure BoardedBut (except : Nat → Prop) (f : Flights) (a : Agenda Task) (jobs : List Job) :
    Prop where
  placed : ∀ n job, ¬except n → jobs[n]? = some job → Placed f a n job
  aboard : ∀ key n, f.Runs key n ∨ f.Awaits key n → ∃ job, jobs[n]? = some job ∧ job.key = key
  manned : ∀ key flight, f.find? key = some flight → flight.runner ≠ none
  single : ∀ key flight, f.find? key = some flight → flight.waiting.Nodup
  unborn : ∀ n, jobs.length ≤ n → a.summons.count (.job n) = 0

def Boarded (f : Flights) (a : Agenda Task) (jobs : List Job) : Prop :=
  BoardedBut (fun _ => False) f a jobs

theorem boarded_nothing {a : Agenda Task} (idle : ∀ n, a.summons.count (.job n) = 0) :
    Boarded {} a [] where
  placed := by simp
  aboard := by
    rintro key n (⟨flight, found, -⟩ | ⟨flight, found, -⟩) <;> simp [find?] at found
  manned := by simp [find?]
  single := by simp [find?]
  unborn := fun n _ => idle n

end Placement

namespace BoardedBut

variable {except : Nat → Prop}

theorem recalled (boarded : BoardedBut except f a jobs)
    (same : ∀ n, b.summons.count (.job n) = a.summons.count (.job n)) :
    BoardedBut except f b jobs where
  placed := fun n job other known =>
    placed_congr (boarded.placed n job other known) Iff.rfl Iff.rfl (same n)
  aboard := boarded.aboard
  manned := boarded.manned
  single := boarded.single
  unborn := fun n outside => (same n).trans (boarded.unborn n outside)

theorem wakeAll (boarded : BoardedBut except f a jobs) {tasks : List Task}
    (foreign : ∀ n, .job n ∉ tasks) : BoardedBut except f (a.wakeAll tasks) jobs := by
  apply boarded.recalled
  intro n
  rw [Agenda.count_summons_wakeAll, if_neg (fun both => foreign n both.1), Nat.add_zero]

theorem once (boarded : Boarded f a jobs) (n : Nat) : a.summons.count (.job n) ≤ 1 := by
  cases known : jobs[n]? with
  | none => rw [boarded.unborn n (List.getElem?_eq_none_iff.mp known)]; exact Nat.zero_le 1
  | some job =>
      rw [(boarded.placed n job id known).calls]
      cases job.stage <;> simp [JobStage.calls]

theorem pop (boarded : Boarded f a jobs) (popped : a.pop? = some (.job n, b)) :
    BoardedBut (· = n) f b jobs where
  placed := by
    intro m job different known
    refine placed_congr (boarded.placed m job id known) Iff.rfl Iff.rfl ?_
    rw [Agenda.count_summons_pop popped, if_neg (fun h => different (Task.job.inj h).symm),
      Nat.add_zero]
  aboard := boarded.aboard
  manned := boarded.manned
  single := boarded.single
  unborn := by
    intro m outside
    have before := boarded.unborn m outside
    rw [Agenda.count_summons_pop popped] at before
    omega

theorem popOther (boarded : Boarded f a jobs) {task : Task} (popped : a.pop? = some (task, b))
    (foreign : ∀ n, task ≠ .job n) : Boarded f b jobs := by
  refine boarded.recalled fun n => ?_
  rw [Agenda.count_summons_pop popped, if_neg (foreign n), Nat.add_zero]

theorem tick (boarded : Boarded f a jobs) (ticked : a.tick? = some b) : Boarded f b jobs :=
  boarded.recalled fun n => Agenda.count_summons_tick ticked (once boarded n)

theorem called (boarded : Boarded f a jobs) (popped : a.pop? = some (.job n, b))
    (known : jobs[n]? = some job) :
    Placed f a n job ∧ job.stage.calls = 1 ∧ b.summons.count (.job n) = 0 := by
  have placed := boarded.placed n job id known
  have own := Agenda.count_summons_pop popped (.job n)
  have once := once boarded n
  rw [if_pos rfl] at own
  refine ⟨placed, ?_, ?_⟩
  · rw [← placed.calls]
    omega
  · omega

theorem setJob (others : BoardedBut (· = n) f a jobs) (known : jobs[n]? = some job)
    (stage : JobStage) (placed : Placed f b n (job.atStage stage))
    (same : ∀ m, m ≠ n → b.summons.count (.job m) = a.summons.count (.job m)) :
    Boarded f b (jobs.modify n (.atStage stage)) where
  placed := by
    intro m other _ known'
    obtain ⟨before, known'', ⟨rfl, rfl⟩ | ⟨different, rfl⟩⟩ := getElem?_modified known'
    · cases known.symm.trans known''
      exact placed
    · exact placed_congr (others.placed m _ (Ne.symm different) known'') Iff.rfl Iff.rfl
        (same m (Ne.symm different))
  aboard := by
    intro key m aboard
    obtain ⟨other, known', mine⟩ := others.aboard key m aboard
    rw [List.getElem?_modify, known']
    by_cases here : n = m
    · exact ⟨other.atStage stage, by simp [here], mine⟩
    · exact ⟨other, by simp [here], mine⟩
  manned := others.manned
  single := others.single
  unborn := by
    intro m outside
    rw [List.length_modify] at outside
    have inside := (List.getElem?_eq_some_iff.mp known).1
    rw [same m (by omega)]
    exact others.unborn m outside

/-- A job comes aboard: it makes the measurement if nobody does and awaits it otherwise. -/
theorem board (others : BoardedBut (· = n) f a jobs) (known : jobs[n]? = some job)
    (notRuns : ¬f.Runs job.key n) (notAwaits : ¬f.Awaits job.key n) :
    BoardedBut (· = n) (f.join job.key n).1 a jobs where
  placed := by
    intro m other different known'
    exact placed_congr (others.placed m other different known') (runs_join_of_ne different)
      (awaits_join_of_ne different) rfl
  aboard := by
    intro key m aboard
    rcases aboard_of_join aboard with old | ⟨rfl, rfl⟩
    · exact others.aboard key m old
    · exact ⟨job, known, rfl⟩
  manned := by
    intro key flight found
    rcases open_of_join _ _ _ found with ⟨rfl, rfl⟩ | ⟨-, before⟩
    · exact manned_boarded _ _ _ _
    · exact others.manned key flight before
  single := by
    intro key flight found
    rcases open_of_join _ _ _ found with ⟨rfl, rfl⟩ | ⟨-, before⟩
    · cases old : f.find? job.key with
      | none => simp [boarded]
      | some flight =>
          have apart := others.single job.key flight old
          have absent : n ∉ flight.waiting := fun waits => notAwaits ⟨flight, old, waits⟩
          cases manned : flight.runner with
          | none => exact absurd manned (others.manned job.key flight old)
          | some runner =>
              simp only [boarded, manned]
              exact (List.perm_append_singleton n flight.waiting).nodup_iff.mpr
                (List.nodup_cons.mpr ⟨absent, apart⟩)
    · exact others.single key flight before
  unborn := others.unborn

section Landing

theorem placed_told (others : BoardedBut (· = n) f a jobs) {key : String} {m : Nat} {old : Job}
    (different : m ≠ n) (known : jobs[m]? = some old) (waited : m ∈ (f.land key).2)
    (outcome : Measurement) : Placed (f.land key).1 (a.wakeAll ((f.land key).2.map .job)) m
      (old.atStage (.told outcome)) := by
  have awaits := (mem_land_waiting _ _ _).mp waited
  obtain ⟨itself, known', rfl⟩ := others.aboard key m (Or.inr awaits)
  rw [known] at known'
  cases known'
  have placed := others.placed m old different known
  have absent := placed.calls
  rw [placed.awaits.mp awaits] at absent
  refine ⟨?_, ?_, ?_⟩
  · exact ⟨fun h => absurd h (ashore_landed _ _ _).1, fun h => by cases h⟩
  · exact ⟨fun h => absurd h (ashore_landed _ _ _).2, fun h => by cases h⟩
  · rw [Agenda.count_summons_wakeAll, absent,
      if_pos ⟨List.mem_map_of_mem waited, Agenda.not_mem_ready absent⟩]
    rfl

theorem placed_untold (others : BoardedBut (· = n) f a jobs) {key : String} (runs : f.Runs key n)
    {m : Nat} {other : Job} (different : m ≠ n) (known : jobs[m]? = some other)
    (notWaited : m ∉ (f.land key).2) :
    Placed (f.land key).1 (a.wakeAll ((f.land key).2.map .job)) m other := by
  refine placed_congr (others.placed m other different known) (runs_land_of_ne runs different)
    (awaits_land_of_not_mem notWaited) ?_
  rw [Agenda.count_summons_wakeAll]
  simp [notWaited]

/-- Telling those who waited leaves only the runner out of step. -/
theorem tellAll (others : BoardedBut (· = n) f a jobs) {key : String} (runs : f.Runs key n)
    (outcome : Measurement) : BoardedBut (· = n) (f.land key).1
      (a.wakeAll ((f.land key).2.map .job)) (toldAll outcome (f.land key).2 jobs) := by
  constructor
  case placed =>
    intro m other different known
    rcases job_of_toldAll known with ⟨waited, old, known', rfl⟩ | ⟨notWaited, known'⟩
    · exact others.placed_told different known' waited outcome
    · exact others.placed_untold runs different known' notWaited
  case aboard =>
    intro other m aboard
    obtain ⟨job, known, mine⟩ := others.aboard other m (aboard_of_land aboard)
    rw [getElem?_toldAll, known]
    split
    · exact ⟨job.atStage (.told outcome), rfl, mine⟩
    · exact ⟨job, rfl, mine⟩
  case manned => exact fun other flight found => others.manned other flight (open_of_land _ _ found).2
  case single => exact fun other flight found => others.single other flight (open_of_land _ _ found).2
  case unborn =>
    intro m outside
    rw [toldAll, length_modifyAll] at outside
    have notWaited : m ∉ (f.land key).2 := by
      intro waited
      obtain ⟨other, known, -⟩ := others.aboard key m
        (Or.inr ((mem_land_waiting _ _ _).mp waited))
      exact absurd (List.getElem?_eq_some_iff.mp known).1 (by omega)
    rw [Agenda.count_summons_wakeAll, others.unborn m outside]
    simp [notWaited]

/-- A measurement ends: those who waited are told, the flight is gone and its runner is done. -/
theorem land (others : BoardedBut (· = n) f a jobs) (known : jobs[n]? = some job)
    (runs : f.Runs job.key n) (notAwaits : ¬f.Awaits job.key n)
    (off : a.summons.count (.job n) = 0) (outcome : Measurement) :
    Boarded (f.land job.key).1 (a.wakeAll ((f.land job.key).2.map .job))
      ((toldAll outcome (f.land job.key).2 jobs).modify n (.atStage (.done outcome))) := by
  have notWaited : n ∉ (f.land job.key).2 := fun waited =>
    notAwaits ((mem_land_waiting _ _ _).mp waited)
  have still : (toldAll outcome (f.land job.key).2 jobs)[n]? = some job := by
    rw [getElem?_toldAll, if_neg notWaited, known]
  refine (others.tellAll runs outcome).setJob still _ ⟨?_, ?_, ?_⟩ (fun _ _ => rfl)
  · exact ⟨fun h => absurd h (ashore_landed _ _ _).1, fun h => by cases h⟩
  · exact ⟨fun h => absurd h (ashore_landed _ _ _).2, fun h => by cases h⟩
  · rw [Agenda.count_summons_wakeAll, off]
    simp [notWaited, Job.atStage, JobStage.calls]

end Landing

theorem enlist {r r' : Ranker σ} {recruits : List Job} (boarded : Boarded r.flights r.agenda r.jobs)
    (enlists : Enlists r recruits r') : Boarded r'.flights r'.agenda r'.jobs := by
  have calls (n : Nat) : Task.job n ∈ callsOf r.jobs recruits ↔
      r.jobs.length ≤ n ∧ n < r.jobs.length + recruits.length := by
    simp [callsOf, List.mem_range'_1]
  have strange (key : String) (n : Nat) (new : r.jobs.length ≤ n) :
      ¬r.flights.Runs key n ∧ ¬r.flights.Awaits key n := by
    constructor
    all_goals
      intro aboard
      obtain ⟨job, known, -⟩ := boarded.aboard key n (by simp [aboard])
      exact absurd (List.getElem?_eq_some_iff.mp known).1 (by omega)
  rw [enlists.flights, enlists.jobs, enlists.agenda]
  refine ⟨?_, ?_, boarded.manned, boarded.single, ?_⟩
  · intro n job _ known
    rw [List.getElem?_append] at known
    split at known
    · rename_i old
      refine placed_congr (boarded.placed n job id known) Iff.rfl Iff.rfl ?_
      rw [Agenda.count_summons_wakeAll, if_neg (fun both => ?_), Nat.add_zero]
      have new := (calls n).mp both.1
      omega
    · rename_i new
      -- a new job is aboard no flight, and its first waking is the one it is called by
      have absent := boarded.unborn n (by omega)
      have notQueued := Agenda.not_mem_ready absent
      obtain ⟨notRuns, notAwaits⟩ := strange job.key n (by omega)
      have stage := enlists.fresh job (List.mem_of_getElem? known)
      have short := (List.getElem?_eq_some_iff.mp known).1
      refine ⟨?_, ?_, ?_⟩
      · exact ⟨fun h => absurd h notRuns, fun h => by simp [Job.isAttempting, stage] at h⟩
      · exact ⟨fun h => absurd h notAwaits, fun h => by simp [stage] at h⟩
      · rw [Agenda.count_summons_wakeAll, absent,
          if_pos ⟨(calls n).mpr ⟨by omega, by omega⟩, notQueued⟩, stage]
        rfl
  · intro key n aboard
    obtain ⟨job, known, mine⟩ := boarded.aboard key n aboard
    exact ⟨job, by rw [List.getElem?_append_left (List.getElem?_eq_some_iff.mp known).1, known], mine⟩
  · intro n outside
    rw [List.length_append] at outside
    rw [Agenda.count_summons_wakeAll, boarded.unborn n (by omega), if_neg (fun both => ?_)]
    have new := (calls n).mp both.1
    omega

end BoardedBut

section Turns

variable {r r' : Ranker σ} {agenda : Agenda Task}

theorem job_not_mem_heeding (rankings : List RankingCall) (owner : Owner) (n : Nat) :
    Task.job n ∉ heeding rankings owner := by
  unfold heeding
  split
  · simp
  · split <;> simp

theorem job_not_mem_heedingCancel (call : RankingCall) (c n : Nat) :
    Task.job n ∉ heedingCancel call c := by
  unfold heedingCancel
  split <;> simp

/-- Who goes on with its attempts makes the measurement of its pair. -/
structure Underway (flights : Flights) (agenda : Agenda Task) (jobs : List Job) (n : Nat) (job : Job) :
    Prop where
  others : BoardedBut (· = n) flights agenda jobs
  runs : flights.Runs job.key n
  notAwaits : ¬flights.Awaits job.key n
  off : agenda.summons.count (.job n) = 0

theorem waited_of_underway {flights : Flights} {jobs : List Job}
    (underway : Underway flights agenda jobs n job) {k : Nat}
    (waited : k ∈ (flights.land job.key).2) :
    k ≠ n ∧ ∃ other, jobs[k]? = some other ∧ other.key = job.key ∧ other.stage = .waiting := by
  have awaits := (mem_land_waiting _ _ _).mp waited
  have different : k ≠ n := fun same => underway.notAwaits (same ▸ awaits)
  obtain ⟨other, known, sameKey⟩ := underway.others.aboard job.key k (Or.inr awaits)
  rw [← sameKey] at awaits
  exact ⟨different, other, known, sameKey,
    (underway.others.placed k other different known).awaits.mp awaits⟩

theorem still_of_underway {flights : Flights} {jobs : List Job}
    (underway : Underway flights agenda jobs n job) (known : jobs[n]? = some job) (m : Measurement) :
    (toldAll m (flights.land job.key).2 jobs)[n]? = some job := by
  rw [getElem?_toldAll, if_neg (fun waited => (waited_of_underway underway waited).1 rfl), known]

theorem open_of_waited {flights : Flights} {jobs : List Job}
    (underway : Underway flights agenda jobs n job) :
    ∀ k ∈ (flights.land job.key).2, ∀ other, jobs[k]? = some other → other.isDone = false := by
  intro k waited other known
  obtain ⟨-, other', known', -, stage⟩ := waited_of_underway underway waited
  cases known.symm.trans known'
  simp [Job.isDone, stage]

theorem open_of_begins {flights : Flights} {total : Nat} {progress : Progress}
    {answers : List (Option Sample)}
    (begins : Begins r n job flights total progress answers) : job.isDone = false := by
  cases begins with
  | first stage runs => simp [Job.isDone, stage]
  | again stage => simp [Job.isDone, stage]
  | next stage => simp [Job.isDone, stage]

theorem underway_of_begins (boarded : Boarded r.flights r.agenda r.jobs)
    (popped : r.agenda.pop? = some (.job n, agenda)) (known : r.jobs[n]? = some job)
    {flights : Flights} {total : Nat} {before : Progress} {pending : List (Option Sample)}
    (begins : Begins { r with agenda } n job flights total before pending) :
    Underway flights agenda r.jobs n job ∧ job.stage ≠ .waiting := by
  have others := BoardedBut.pop boarded popped
  obtain ⟨placed, calls, off⟩ := BoardedBut.called boarded popped known
  cases begins with
  | first stage runs =>
      obtain ⟨notRuns, notAwaits⟩ :=
        placed.ashore (by simp [Job.isAttempting, stage]) (by simp [stage])
      refine ⟨⟨others.board known notRuns notAwaits, ?_, ?_, off⟩, by simp [stage]⟩
      · exact (runs_join _ _ _ _ _).mpr (Or.inr ⟨rfl, rfl, runs⟩)
      · intro h
        rcases (awaits_join _ _ _ _ _).mp h with old | ⟨-, -, behind⟩
        · exact notAwaits old
        · exact behind runs
  | again stage => simp [stage, JobStage.calls] at calls
  | next stage =>
      refine ⟨⟨others, placed.runs.mpr (by simp [Job.isAttempting, stage]), ?_, off⟩, by simp [stage]⟩
      intro h
      have waits := placed.awaits.mp h
      simp [stage] at waits

theorem job_completed {flights : Flights} (underway : Underway flights agenda r.jobs n job)
    (known : r.jobs[n]? = some job) (m : Measurement) :
    ((toldAll m (flights.land job.key).2 r.jobs).modify n (.atStage (.done m)))[n]? =
      some (job.atStage (.done m)) := by
  rw [List.getElem?_modify_eq, still_of_underway underway known]
  rfl

/-- After a measurement its job is done and those who waited are told; the others are as before. -/
theorem job_of_completed {flights : Flights} {m : Measurement}
    (underway : Underway flights agenda r.jobs n job) (known : r.jobs[n]? = some job) {k : Nat}
    {job' : Job} (known' : ((toldAll m (flights.land job.key).2 r.jobs).modify n
      (.atStage (.done m)))[k]? = some job') :
    (k = n ∧ job' = job.atStage (.done m)) ∨
      ∃ old, r.jobs[k]? = some old ∧ k ≠ n ∧
        (job' = old ∨ (old.stage = .waiting ∧ old.key = job.key ∧ job' = old.atStage (.told m))) := by
  obtain ⟨before, known'', ⟨rfl, rfl⟩ | ⟨different, rfl⟩⟩ := getElem?_modified known'
  · cases (still_of_underway underway known m).symm.trans known''
    exact Or.inl ⟨rfl, rfl⟩
  · refine Or.inr ?_
    rcases job_of_toldAll known'' with ⟨waited, old, was, rfl⟩ | ⟨-, was⟩
    · obtain ⟨-, other, was', sameKey, stage⟩ := waited_of_underway underway waited
      cases was.symm.trans was'
      exact ⟨old, was, Ne.symm different, Or.inr ⟨stage, sameKey, rfl⟩⟩
    · exact ⟨_, was, Ne.symm different, Or.inl rfl⟩

theorem boarded_completed {flights : Flights} {m : Measurement}
    (underway : Underway flights agenda r.jobs n job) (known : r.jobs[n]? = some job)
    (memory : σ) (journal : List RankerEvent) :
    let r' := completed { r with agenda, flights, memory, journal } n job m
    Boarded r'.flights r'.agenda r'.jobs := by
  have landed := underway.others.land known underway.runs underway.notAwaits underway.off m
  exact landed.wakeAll (job_not_mem_heeding r.rankings job.owner)

theorem boarded_jobTurn (boarded : Boarded r.flights r.agenda r.jobs)
    (popped : r.agenda.pop? = some (.job n, agenda)) (known : r.jobs[n]? = some job)
    (turn : JobTurn { r with agenda } n job r') : Boarded r'.flights r'.agenda r'.jobs := by
  have others := BoardedBut.pop boarded popped
  obtain ⟨placed, calls, off⟩ := BoardedBut.called boarded popped known
  cases turn with
  | waits stage behind =>
      obtain ⟨notRuns, notAwaits⟩ :=
        placed.ashore (by simp [Job.isAttempting, stage]) (by simp [stage])
      refine (others.board known notRuns notAwaits).setJob known .waiting ⟨?_, ?_, off⟩
        (fun _ _ => rfl)
      · refine ⟨fun h => ?_, fun h => by cases h⟩
        rcases (runs_join _ _ _ _ _).mp h with old | ⟨-, -, runs⟩
        · exact absurd old notRuns
        · exact absurd runs behind
      · exact ⟨fun _ => rfl,
          fun _ => (awaits_join _ _ _ _ _).mpr (Or.inr ⟨rfl, rfl, behind⟩)⟩
  | sleeps begins news memory sample delay attempts reported took fewer positive =>
      obtain ⟨underway, -⟩ := underway_of_begins boarded popped known begins
      refine underway.others.setJob known _ ⟨?_, ?_, ?_⟩ ?_
      · exact ⟨fun _ => rfl, fun _ => underway.runs⟩
      · exact ⟨fun h => absurd h underway.notAwaits, fun h => by cases h⟩
      · rw [Agenda.count_summons_wakeAfter _ _ _ positive, underway.off, if_pos rfl]
        rfl
      · intro m different
        rw [Agenda.count_summons_wakeAfter _ _ _ positive,
          if_neg (fun h => different (Task.job.inj h).symm), Nat.add_zero]
  | concludes begins news memory attempts reported took all =>
      obtain ⟨underway, -⟩ := underway_of_begins boarded popped known begins
      exact boarded_completed underway known _ _
  | givesUp begins news memory attempts reported failed =>
      obtain ⟨underway, -⟩ := underway_of_begins boarded popped known begins
      exact boarded_completed underway known _ _
  | @ends outcome stage =>
      obtain ⟨notRuns, notAwaits⟩ :=
        placed.ashore (by simp [Job.isAttempting, stage]) (by simp [stage])
      rw [finish_eq]
      -- Its flight landed as it was told of the outcome, so it ends without a landing.
      have ended : Boarded r.flights agenda (r.jobs.modify n (.atStage (.done outcome))) := by
        refine others.setJob known _ ⟨?_, ?_, off⟩ (fun _ _ => rfl)
        · exact ⟨fun h => absurd h notRuns, fun h => by cases h⟩
        · exact ⟨fun h => absurd h notAwaits, fun h => by cases h⟩
      exact ended.wakeAll (job_not_mem_heeding r.rankings job.owner)
  | idle stage => simp [stage, JobStage.calls] at calls

theorem boarded_of_turn (boarded : Boarded r.flights r.agenda r.jobs) (turn : Turn r r') :
    Boarded r'.flights r'.agenda r'.jobs := by
  cases turn with
  | rests empty => exact boarded
  | ofJob popped known turn => exact boarded_jobTurn boarded popped known turn
  | @ofRanking c agenda call _ popped known turn =>
      have others := BoardedBut.popOther boarded popped (fun n h => by cases h)
      rcases recruits_of_turn turn with rfl | ⟨recruits, r'', call'', news, enlisted, rfl, -⟩
      · exact others
      · exact (BoardedBut.enlist (r := { r with agenda }) others enlisted.enlists :)
  | ofCancel popped known =>
      have others := BoardedBut.popOther boarded popped (fun n h => by cases h)
      exact others.wakeAll (job_not_mem_heedingCancel _ _)
  | @lapses task agenda popped noJob noRanking =>
      cases task with
      | job n =>
          have others := BoardedBut.pop boarded popped
          refine ⟨fun m job _ known => ?_, others.aboard, others.manned, others.single, others.unborn⟩
          refine others.placed m job (fun same => ?_) known
          rw [same, noJob n rfl] at known
          cases known
      | ranking c => exact BoardedBut.popOther boarded popped (fun n h => by cases h)
      | cancel c => exact BoardedBut.popOther boarded popped (fun n h => by cases h)

theorem count_job_wakeAfter (a : Agenda Task) (delay : Nat) {task : Task}
    (foreign : ∀ n, task ≠ .job n) (n : Nat) :
    (a.wakeAfter delay task).summons.count (.job n) = a.summons.count (.job n) := by
  unfold Agenda.wakeAfter
  split
  · exact Agenda.count_summons_wake_of_ne a (foreign n)
  · rename_i positive
    have later := Agenda.count_summons_wakeAfter a task (.job n) (Nat.pos_of_ne_zero positive)
    rw [Agenda.wakeAfter, if_neg positive, if_neg (foreign n), Nat.add_zero] at later
    exact later

theorem boarded_of_aside (boarded : Boarded r.flights r.agenda r.jobs) (aside : Aside r r') :
    Boarded r'.flights r'.agenda r'.jobs := by
  cases aside with
  | plain clock memory history cache sweeping stopped => exact boarded
  | ticks ticked => exact BoardedBut.tick boarded ticked
  | rests time => exact boarded.recalled fun n => rfl
  | asks candidates domain start cancelAfter =>
      refine boarded.recalled fun n => ?_
      apply kept_by_request (motive := fun a => a.summons.count (.job n) = r.agenda.summons.count (.job n))
      · exact count_job_wakeAfter _ _ (fun m h => by cases h) n
      · exact fun a delay same => (count_job_wakeAfter a delay (fun m h => by cases h) n).trans same
  | cancels known => exact boarded.wakeAll (job_not_mem_heedingCancel _ _)

/-- Every act keeps jobs, flights and agenda in step. -/
theorem boarded_perform (r : Ranker σ) (act : Act σ) (boarded : Boarded r.flights r.agenda r.jobs) :
    Boarded (r.perform act).flights (r.perform act).agenda (r.perform act).jobs := by
  rcases outcome_perform r act with ⟨-, turn⟩ | aside
  · exact boarded_of_turn boarded turn
  · exact boarded_of_aside boarded aside

theorem boarded_after {r : Ranker σ} (boarded : Boarded r.flights r.agenda r.jobs) (acts : List (Act σ)) :
    Boarded (r.after acts).flights (r.after acts).agenda (r.after acts).jobs :=
  after_induction (motive := fun r : Ranker σ => Boarded r.flights r.agenda r.jobs) boarded_perform
    boarded acts

end Turns

end Ranker

end LatencyRank
