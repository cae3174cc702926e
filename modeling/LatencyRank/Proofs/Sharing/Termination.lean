import Mathlib
import LatencyRank.Proofs.Sharing.Coherence

/-!
The run of the callers. It starts with everything in step, every step leaves less work, and where
nothing is left to do every caller has its outcome or was called off.
-/

namespace LatencyRank.Sharing

open Flights

section Work

variable {s : Sharing} {n : Nat} {caller : Caller}

theorem CoherentBut.work_finish (others : CoherentBut (· = n) s)
    (runs : s.flights.Runs caller.key n) {stage : CallerStage} (at' : s.stages[n]? = some stage) :
    (s.finish n caller).work + stageWork stage ≤ s.work := by
  rw [finish_eq]
  have waitingStage : ∀ m ∈ (s.flights.land caller.key).2, m ≠ n ∧ s.stages[m]? = some .waiting := by
    intro m told
    have awaits := (mem_land_waiting _ _ _).mp told
    have different : m ≠ n := fun same => others.runner_does_not_wait runs (same ▸ awaits)
    obtain ⟨-, -, -, waits, -⟩ := others.waiting_of_awaits different awaits
    exact ⟨different, waits⟩
  have distinct : (s.flights.land caller.key).2.Nodup := by
    obtain ⟨flight, found, -⟩ := runs
    have apart := others.distinct caller.key flight found
    rw [land_waiting, found]
    exact (List.nodup_append.mp apart).2.1
  -- a waiting caller that is told has four units less to do
  have told : totalOf stageWork (modifyAll (fun _ => .told caller.probe)
      (s.flights.land caller.key).2 s.stages) + 4 * (s.flights.land caller.key).2.length ≤
        totalOf stageWork s.stages :=
    totalOf_modifyAll_le distinct fun m member =>
      ⟨.waiting, (waitingStage m member).2, Nat.le_refl _⟩
  have stillHere : (modifyAll (fun _ => .told caller.probe) (s.flights.land caller.key).2
      s.stages)[n]? = some stage := by
    rw [getElem?_modifyAll (fun _ => CallerStage.told caller.probe) fun _ => rfl,
      if_neg fun member => (waitingStage n member).1 rfl, at']
  have own := totalOf_set stageWork stillHere (.done caller.probe s.now)
  have nothingLeft : stageWork (.done caller.probe s.now) = 0 := rfl
  have queue := s.agenda.ready_wakeAll_length
    ((s.flights.land caller.key).2.map Alarm.resume)
  simp only [work, Agenda.sleeping_wakeAll, List.length_map] at queue ⊢
  omega

theorem CoherentBut.work_probe (others : CoherentBut (· = n) s)
    (runs : s.flights.Runs caller.key n) {stage : CallerStage} (at' : s.stages[n]? = some stage)
    (idle : 5 ≤ stageWork stage) : (s.probe n caller).work ≤ s.work := by
  have noted := others.note (.started n s.now)
  unfold Sharing.probe
  by_cases instant : caller.duration = 0
  · simp only [instant, ↓reduceIte]
    have finished := noted.work_finish runs at'
    have same : (s.note (.started n s.now)).work = s.work := rfl
    omega
  · have positive : 0 < caller.duration := Nat.pos_of_ne_zero instant
    have own := totalOf_set stageWork at' .probing
    have waking : stageWork .probing = 3 := rfl
    simp only [instant, ↓reduceIte, work, Sharing.setStage, Sharing.note, Agenda.ready_wakeAfter _ _ positive,
      Agenda.sleeping_wakeAfter_length _ _ positive]
    omega

theorem CoherentBut.work_arrive (others : CoherentBut (· = n) s)
    (known : s.callers[n]? = some caller) (notRuns : ¬s.flights.Runs caller.key n)
    (notAwaits : ¬s.flights.Awaits caller.key n) (at' : s.stages[n]? = some .expected) :
    (s.arrive n caller).work ≤ s.work := by
  have boarded := (others.board known notRuns notAwaits).note
    (.joined n (s.flights.join caller.key n).2.flight s.now)
  unfold Sharing.arrive
  by_cases runs : (s.flights.join caller.key n).2.runs = true
  · simp only [runs, ↓reduceIte]
    have mine := (runs_join _ _ _ _ _).mpr (Or.inr ⟨rfl, rfl, runs⟩)
    exact boarded.work_probe mine at' (by simp [stageWork])
  · have own := totalOf_set stageWork at' .waiting
    simp only [stageWork] at own
    simp only [runs, Bool.false_eq_true, ↓reduceIte, work, Sharing.setStage, Sharing.note]
    omega

theorem work_callOff (s : Sharing) (n : Nat) : (s.callOff n).work ≤ s.work := by
  rcases callOff_cases s n with ⟨same, -⟩ | ⟨caller, stage, known, at', busy⟩
  · rw [same]
  · rw [callOff_eq s n known at' busy]
    have own := totalOf_set stageWork at' .calledOff
    have nothingLeft : stageWork .calledOff = 0 := rfl
    have left : 1 ≤ stageWork stage := by
      cases stage <;> simp [Over, stageWork] at busy ⊢
    -- the one heir that may be summoned costs no more than the stage that is given up
    have heirs : (s.flights.leave caller.key n).2.toList.length ≤ 1 := by
      cases (s.flights.leave caller.key n).2 <;> simp
    have queue := (s.agenda.forget (.resume n)).ready_wakeAll_length
      ((s.flights.leave caller.key n).2.toList.map Alarm.resume)
    have kept : (s.agenda.forget (Alarm.resume n)).ready.length ≤ s.agenda.ready.length :=
      List.length_filter_le _ _
    have slept : (s.agenda.forget (Alarm.resume n)).sleeping.length ≤ s.agenda.sleeping.length :=
      List.length_filter_le _ _
    simp only [work, Agenda.sleeping_wakeAll, List.length_map] at queue ⊢
    omega

theorem work_pop (s : Sharing) {agenda : Agenda Alarm} {alarm : Alarm}
    (popped : s.agenda.pop? = some (alarm, agenda)) :
    Sharing.work { s with agenda } + 1 = s.work := by
  obtain ⟨shape, sleeping, -⟩ := Agenda.pop?_eq_some popped
  simp only [work, shape, sleeping, List.length_cons]
  omega

theorem work_resume (coherent : Coherent s) {agenda : Agenda Alarm} {n : Nat}
    (popped : s.agenda.pop? = some (.resume n, agenda)) :
    (Sharing.resume { s with agenda } n).work ≤ Sharing.work { s with agenda } := by
  have others := CoherentBut.others_pop coherent popped
  apply resume_cases (motive := fun s' => s'.work ≤ Sharing.work { s with agenda })
  case spared => exact fun _ => Nat.le_refl _
  case expected =>
    intro caller known at'
    have placed := coherent.placed n caller _ id known at'
    exact others.work_arrive known placed.1 placed.2.1 at'
  case waiting =>
    intro caller known at'
    have counts := Agenda.count_summons_pop popped (.resume n)
    rw [if_pos rfl] at counts
    rcases coherent.placed n caller _ id known at' with ⟨runs, -, -, -⟩ | ⟨-, -, absent⟩
    · exact others.work_probe runs at' (by simp [stageWork])
    · omega
  case probing =>
    intro caller known at'
    have finished := others.work_finish (coherent.placed n caller _ id known at').1 at'
    omega
  case told =>
    intro caller outcome known at'
    have own := totalOf_set stageWork at' (.done outcome agenda.now)
    simp only [stageWork] at own
    simp only [work, answer, setStage, note, now] at own ⊢
    omega

theorem work_step {s s' : Sharing} (coherent : Coherent s) (stepped : s.step? = some s') :
    s'.work < s.work := by
  rcases step_cases stepped with ⟨later, -, ticked, rfl⟩ | ⟨alarm, agenda, popped, rfl⟩
  · have slept := Agenda.sleeping_tick ticked
    obtain ⟨time, task, rest, -, rfl⟩ := Agenda.tick?_eq_some ticked
    have queued := Agenda.ready_wake_length
      ({ s.agenda with now := max s.agenda.now time, sleeping := rest } : Agenda Alarm) task
    simp only [work] at slept queued ⊢
    omega
  · have popWork := work_pop s popped
    cases alarm with
    | resume n =>
        have := work_resume coherent popped
        simp only [handle]
        omega
    | callOff n =>
        have := work_callOff { s with agenda } n
        simp only [handle]
        omega
    | count number =>
        simp only [handle]
        simp only [work] at popWork ⊢
        omega

end Work

section Start

variable (callers : List Caller) (countAt : List Nat)

def alarms : List (Nat × Alarm) :=
  ((seenAt 0 countAt).mapIdx fun n time => (time, Alarm.count n)) ++
    (callers.mapIdx fun n caller => (caller.arrival, Alarm.resume n)) ++
    (callers.mapIdx fun n caller => caller.calledOff.map fun time => (time, Alarm.callOff n)).filterMap
      id

theorem start_eq : start callers countAt =
    { callers, stages := callers.map fun _ => .expected,
      agenda := ({} : Agenda Alarm).enter (alarms callers countAt) } := rfl

theorem mem_alarms {time : Nat} {alarm : Alarm} (set : (time, alarm) ∈ alarms callers countAt) :
    (∃ n, alarm = .count n) ∨
      (∃ n caller, callers[n]? = some caller ∧ alarm = .resume n ∧ time = caller.arrival) ∨
      ∃ n caller, callers[n]? = some caller ∧ alarm = .callOff n ∧ caller.calledOff = some time := by
  simp only [alarms, List.mem_append, List.mem_mapIdx, List.mem_filterMap, id_eq] at set
  rcases set with (⟨n, inside, same⟩ | ⟨n, inside, same⟩) | ⟨entry, ⟨n, inside, rfl⟩, same⟩
  · cases same
    exact Or.inl ⟨n, rfl⟩
  · cases same
    exact Or.inr (Or.inl ⟨n, callers[n], List.getElem?_eq_getElem inside, rfl, rfl⟩)
  · obtain ⟨due, off, same⟩ := Option.map_eq_some_iff.mp same
    cases same
    exact Or.inr (Or.inr ⟨n, callers[n], List.getElem?_eq_getElem inside, rfl, off⟩)

theorem count_alarms {n : Nat} (inside : n < callers.length) :
    ((alarms callers countAt).map Prod.snd).count (.resume n) = 1 := by
  have counts : (((seenAt 0 countAt).mapIdx fun n time => (time, Alarm.count n)).map
      Prod.snd).count (Alarm.resume n) = 0 := by
    refine List.count_eq_zero.mpr fun member => ?_
    obtain ⟨alarm, set, same⟩ := List.mem_map.mp member
    obtain ⟨k, inside, rfl⟩ := List.mem_mapIdx.mp set
    cases same
  have endings : (((callers.mapIdx fun n caller =>
      caller.calledOff.map fun time => (time, Alarm.callOff n)).filterMap id).map
      Prod.snd).count (Alarm.resume n) = 0 := by
    refine List.count_eq_zero.mpr fun member => ?_
    obtain ⟨alarm, set, same⟩ := List.mem_map.mp member
    obtain ⟨entry, set, listed⟩ := List.mem_filterMap.mp set
    obtain ⟨k, inside, rfl⟩ := List.mem_mapIdx.mp set
    obtain ⟨due, off, rfl⟩ := Option.map_eq_some_iff.mp listed
    cases same
  have arrivals : ((callers.mapIdx fun n caller => (caller.arrival, Alarm.resume n)).map
      Prod.snd) = (List.range callers.length).map Alarm.resume := by
    apply List.ext_getElem
    · simp
    · intro k left right
      simp
  have injective : Function.Injective Alarm.resume := fun _ _ => Alarm.resume.inj
  rw [alarms, List.map_append, List.map_append, List.count_append, List.count_append, counts,
    endings, arrivals, List.count_map_of_injective _ _ injective,
    List.count_eq_one_of_mem List.nodup_range (List.mem_range.mpr inside)]

theorem coherent_start : Coherent (start callers countAt) := by
  rw [start_eq]
  have nobody : ∀ key, ({} : Flights).find? key = none := fun _ => rfl
  refine CoherentBut.mk ?staged ?placed ?aboard ?distinct ?manned
  case staged => exact by simp
  case placed =>
    intro n caller stage _ known at'
    simp only [List.getElem?_map, Option.map_eq_some_iff] at at'
    obtain ⟨it, -, rfl⟩ := at'
    refine ⟨by simp [Runs, nobody], by simp [Awaits, nobody], ?_⟩
    have once := count_alarms callers countAt (List.getElem?_eq_some_iff.mp known).1
    have empty : ({} : Agenda Alarm).summons.count (.resume n) = 0 := rfl
    rw [Agenda.count_summons_enter _ _ _ (by omega), once, empty]
  case aboard => rintro key n (⟨flight, found, -⟩ | ⟨flight, found, -⟩) <;> cases found
  case distinct =>
    intro key flight found
    cases found
  case manned =>
    intro key flight found
    cases found

end Start

section Run

theorem runFor_of_step {s s' : Sharing} (stepped : s.step? = some s') (fuel : Nat) :
    s.runFor (fuel + 1) = s'.runFor fuel := by
  rw [runFor, stepped]

theorem runFor_of_settled {s : Sharing} (settled : s.step? = none) (fuel : Nat) :
    s.runFor fuel = s := by
  cases fuel with
  | zero => rfl
  | succ fuel => rw [runFor, settled]

/-- Who can still take a step settles after one step at the least. -/
theorem exists_succ_of_settled {s s' : Sharing} {fuel : Nat} (stepped : s.step? = some s')
    (settled : (s.runFor fuel).step? = none) : ∃ left, fuel = left + 1 := by
  cases fuel with
  | zero =>
      rw [runFor] at settled
      cases settled.symm.trans stepped
  | succ left => exact ⟨left, rfl⟩

theorem runFor_add (s : Sharing) (m n : Nat) : s.runFor (m + n) = (s.runFor m).runFor n := by
  induction m generalizing s with
  | zero =>
      rw [Nat.zero_add]
      rfl
  | succ m ih =>
      rw [Nat.succ_add]
      cases stepped : s.step? with
      | none => rw [runFor_of_settled stepped, runFor_of_settled stepped, runFor_of_settled stepped]
      | some s' => rw [runFor_of_step stepped, runFor_of_step stepped, ih]

theorem runFor_induction {motive : Sharing → Prop}
    (keeps : ∀ {s s' : Sharing}, motive s → s.step? = some s' → motive s') (fuel : Nat)
    {s : Sharing} (holds : motive s) : motive (s.runFor fuel) := by
  induction fuel generalizing s with
  | zero => exact holds
  | succ fuel ih =>
      unfold runFor
      cases stepped : s.step? with
      | none => exact holds
      | some s' => exact ih (keeps holds stepped)

/-- What coherent steps keep, a run from a coherent state keeps. -/
theorem runFor_coherent {motive : Sharing → Prop}
    (keeps : ∀ {s s' : Sharing}, Coherent s → motive s → s.step? = some s' → motive s') (fuel : Nat)
    {s : Sharing} (coherent : Coherent s) (holds : motive s) : motive (s.runFor fuel) :=
  (runFor_induction (motive := fun s' => Coherent s' ∧ motive s')
    (fun both stepped => ⟨coherent_step both.1 stepped, keeps both.1 both.2 stepped⟩) fuel
    ⟨coherent, holds⟩).2

/-- As many steps as there is work lead to where nothing is left to do. -/
theorem runFor_settles {s : Sharing} (coherent : Coherent s) (fuel : Nat) (enough : s.work ≤ fuel) :
    (s.runFor fuel).step? = none := by
  induction fuel generalizing s with
  | zero =>
      unfold runFor
      cases stepped : s.step? with
      | none => rfl
      | some s' =>
          have less := work_step coherent stepped
          omega
  | succ fuel ih =>
      unfold runFor
      cases stepped : s.step? with
      | none => exact stepped
      | some s' =>
          have less := work_step coherent stepped
          exact ih (coherent_step coherent stepped) (by omega)

theorem idle_of_settled {s : Sharing} (settled : s.step? = none) :
    s.agenda.ready = [] ∧ s.agenda.sleeping = [] := by
  cases popped : s.agenda.pop? with
  | none =>
      rw [step?, popped] at settled
      exact ⟨Agenda.pop?_eq_none.mp popped,
        Agenda.tick?_eq_none.mp (Option.map_eq_none_iff.mp settled)⟩
  | some next =>
      obtain ⟨alarm, agenda⟩ := next
      cases (step_of_pop popped).symm.trans settled

theorem settled_stage {s : Sharing} (coherent : Coherent s) (settled : s.step? = none) {n : Nat}
    {caller : Caller} {stage : CallerStage} (known : s.callers[n]? = some caller)
    (at' : s.stages[n]? = some stage) : Over stage := by
  obtain ⟨noneReady, noneAsleep⟩ := idle_of_settled settled
  have silent : ∀ m, s.agenda.summons.count (.resume m) = 0 := by
    intro m
    rw [Agenda.summons, noneReady, noneAsleep]
    rfl
  have placed := coherent.placed n caller stage id known at'
  cases stage with
  | expected => exact absurd placed.2.2 (by rw [silent]; simp)
  | waiting =>
      -- whoever awaits an outcome awaits a runner, and a runner is summoned
      obtain ⟨r, other, known', -, -, probes | ⟨-, queued⟩⟩ := runner_of_waiting coherent known at'
      · have summoned := (coherent.placed r other _ id known' probes).2.2
        exact absurd summoned (by rw [silent]; simp)
      · rw [noneReady] at queued
        cases queued
  | probing => exact absurd placed.2.2 (by rw [silent]; simp)
  | told outcome => exact absurd placed.2.2 (by rw [silent]; simp)
  | done outcome time => exact Or.inl ⟨outcome, time, rfl⟩
  | calledOff => exact Or.inr rfl

theorem run_settles (callers : List Caller) (countAt : List Nat) :
    (start callers countAt).run.step? = none :=
  runFor_settles (coherent_start callers countAt) _ (Nat.le_refl _)

theorem run_of_runFor (callers : List Caller) (countAt : List Nat) (steps : Nat) :
    ((start callers countAt).runFor steps).runFor (start callers countAt).work =
      (start callers countAt).run := by
  rw [← runFor_add, Nat.add_comm, runFor_add]
  exact runFor_of_settled (run_settles callers countAt) steps

@[simp] theorem callers_finish (s : Sharing) (n : Nat) (caller : Caller) :
    (s.finish n caller).callers = s.callers := by rw [finish_eq]

@[simp] theorem callers_probe (s : Sharing) (n : Nat) (caller : Caller) :
    (s.probe n caller).callers = s.callers := by
  unfold probe
  split
  · exact callers_finish _ n caller
  · rfl

@[simp] theorem callers_arrive (s : Sharing) (n : Nat) (caller : Caller) :
    (s.arrive n caller).callers = s.callers := by
  unfold arrive
  by_cases runs : (s.flights.join caller.key n).2.runs = true
  · simp only [runs, ↓reduceIte]
    exact callers_probe _ n caller
  · simp [runs, setStage, note]

theorem callers_resume (s : Sharing) (n : Nat) : (s.resume n).callers = s.callers := by
  apply resume_cases (motive := fun s' => s'.callers = s.callers)
  case spared => exact fun _ => rfl
  case expected => exact fun caller _ _ => callers_arrive s n caller
  case waiting => exact fun caller _ _ => callers_probe s n caller
  case probing => exact fun caller _ _ => callers_finish s n caller
  case told => exact fun _ _ _ _ => rfl

theorem callers_callOff (s : Sharing) (n : Nat) : (s.callOff n).callers = s.callers := by
  rcases callOff_cases s n with ⟨same, -⟩ | ⟨caller, stage, known, at', busy⟩
  · rw [same]
  · rw [callOff_eq s n known at' busy]

theorem callers_step {s s' : Sharing} (stepped : s.step? = some s') : s'.callers = s.callers := by
  rcases step_cases stepped with ⟨later, -, -, rfl⟩ | ⟨alarm, agenda, -, rfl⟩
  · rfl
  · cases alarm with
    | resume n => exact callers_resume _ n
    | callOff n => exact callers_callOff _ n
    | count number => rfl

theorem callers_runFor (fuel : Nat) (s : Sharing) : (s.runFor fuel).callers = s.callers := by
  refine runFor_induction (motive := fun s' => s'.callers = s.callers) ?_ fuel rfl
  intro s' s'' same stepped
  rw [callers_step stepped, same]

end Run

end LatencyRank.Sharing
